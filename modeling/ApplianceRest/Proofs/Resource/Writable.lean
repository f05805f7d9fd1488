import ApplianceRest.Proofs.Record.RoundTrip
import ApplianceRest.Resource.Collection
import ApplianceRest.Resource.DnsSettings
import ApplianceRest.Resource.IcapProfile
import ApplianceRest.Resource.NaptrPool
import ApplianceRest.Resource.Pool
import ApplianceRest.Resource.RouteDomain
import ApplianceRest.Resource.Stats
import ApplianceRest.Resource.TcpMonitor
import ApplianceRest.Resource.VirtualServer

/-!
# Resources survive the wire

What a resource says besides what only the appliance sets: `writable` resets the fields that a
caller cannot write, at every depth. A resource that is written and read again comes back as that,
and its text says nothing else (`resources_roundTrip`).
-/

namespace ApplianceRest

open Record (Fields Resets RoundTrips Shape Wire)

/-! ## Writable fields -/

def PoolMember.writable (m : PoolMember) : PoolMember := { m with fullPath := none }

def Pool.writable (p : Pool) : Pool :=
  { p with
    kind := none
    fullPath := none
    generation := none
    selfLink := none
    members := p.members.map PoolMember.writable }

def VirtualServer.writable (v : VirtualServer) : VirtualServer :=
  { v with kind := none, fullPath := none, generation := none, selfLink := none }

def TcpMonitor.writable (m : TcpMonitor) : TcpMonitor :=
  { m with kind := none, fullPath := none, selfLink := none }

def IcapProfile.writable (p : IcapProfile) : IcapProfile :=
  { p with kind := none, fullPath := none, selfLink := none }

def NaptrPool.writable (p : NaptrPool) : NaptrPool :=
  { p with kind := none, fullPath := none, selfLink := none }

def RouteDomain.writable (d : RouteDomain) : RouteDomain :=
  { d with
    kind := none
    fullPath := none
    generation := none
    selfLink := none
    vlansReference := [] }

def DnsSettings.writable (s : DnsSettings) : DnsSettings :=
  { s with kind := none, selfLink := none }

/-- The objects of a collection, each without what only the appliance sets. -/
def Collection.writable {α : Type} (writable : α → α) (c : Collection α) : Collection α :=
  { c with items := c.items.map writable }

/-! ## Shapes -/

theorem PoolMember.resets : Resets PoolMember.writable where
  isSound := by decide
  reset_row m := by
    simp [Wire.shape, Wire.row, PoolMember.fields, Shape.default, PoolMember.writable]

theorem Pool.resets : Resets Pool.writable where
  isSound := by decide
  reset_row p := by
    have hmembers := PoolMember.resets.reset_list p.members
    simpa [Wire.shape, Wire.row, Pool.fields, Shape.default, Pool.writable] using hmembers

theorem VirtualServer.resets : Resets VirtualServer.writable where
  isSound := by decide
  reset_row v := by
    have htranslation :
        (Shape.optional (Wire.shape Translation)).reset (v.translation.map Wire.row) =
          v.translation.map Wire.row := Shape.reset_eq_self _ (by decide) _
    simpa [Wire.shape, Wire.row, VirtualServer.fields, Shape.default,
      VirtualServer.writable] using htranslation

theorem TcpMonitor.resets : Resets TcpMonitor.writable where
  isSound := by decide
  reset_row m := by
    simp [Wire.shape, Wire.row, TcpMonitor.fields, Shape.default, TcpMonitor.writable]

theorem IcapProfile.resets : Resets IcapProfile.writable where
  isSound := by decide
  reset_row p := by
    simp [Wire.shape, Wire.row, IcapProfile.fields, Shape.default, IcapProfile.writable]

theorem NaptrPool.resets : Resets NaptrPool.writable where
  isSound := by decide
  reset_row p := by
    simp [Wire.shape, Wire.row, NaptrPool.fields, Shape.default, NaptrPool.writable]

theorem RouteDomain.resets : Resets RouteDomain.writable where
  isSound := by decide
  reset_row d := by
    have hreferences : ([] : List Reference).map Wire.row = [] := rfl
    simpa [Wire.shape, Wire.row, RouteDomain.fields, Shape.default,
      RouteDomain.writable] using hreferences

theorem DnsSettings.resets : Resets DnsSettings.writable where
  isSound := by decide
  reset_row s := by
    simp [Wire.shape, Wire.row, DnsSettings.fields, Shape.default, DnsSettings.writable]

/-- The objects of a collection are kept as they are kept on their own. -/
theorem Collection.resets {α : Type} [Wire α] {writable : α → α} (h : Resets writable) :
    Resets (Collection.writable writable) where
  isSound := by
    simp [Wire.shape, Collection.fields, Shape.isSound, Fields.isSound, Fields.keys, h.isSound]
  reset_row c := by
    have hitems := h.reset_list c.items
    simpa [Wire.shape, Wire.row, Collection.fields, Collection.writable] using hitems

/-! ## Resources -/

/-- Everything that can go over the wire comes back without what only the appliance sets, and its
text says nothing of that: every kind of object with the parts it has, links and statistics, and the
collections of objects. -/
theorem resources_roundTrip :
    RoundTrips Pool.writable ∧ RoundTrips PoolMember.writable ∧
    RoundTrips VirtualServer.writable ∧ RoundTrips (id : Translation → Translation) ∧
    RoundTrips TcpMonitor.writable ∧ RoundTrips IcapProfile.writable ∧
    RoundTrips NaptrPool.writable ∧
    RoundTrips RouteDomain.writable ∧ RoundTrips (id : Reference → Reference) ∧
    RoundTrips DnsSettings.writable ∧
    RoundTrips (id : StatValue → StatValue) ∧ RoundTrips (id : NestedStats → NestedStats) ∧
    RoundTrips (id : StatsEntry → StatsEntry) ∧ RoundTrips (id : Stats → Stats) ∧
    RoundTrips (Collection.writable Pool.writable) ∧
    RoundTrips (Collection.writable PoolMember.writable) ∧
    RoundTrips (Collection.writable VirtualServer.writable) ∧
    RoundTrips (Collection.writable RouteDomain.writable) := by
  have hwritable {α : Type} [Wire α] (hsound : (Wire.shape α).isSound = true)
      (h : (Wire.shape α).isWritable = true) : RoundTrips (id : α → α) :=
    (Resets.of_isWritable hsound h).roundTrips
  refine ⟨Pool.resets.roundTrips, PoolMember.resets.roundTrips, VirtualServer.resets.roundTrips,
    hwritable (by decide) (by decide), TcpMonitor.resets.roundTrips, IcapProfile.resets.roundTrips,
    NaptrPool.resets.roundTrips, RouteDomain.resets.roundTrips, hwritable (by decide) (by decide),
    DnsSettings.resets.roundTrips, hwritable (by decide) (by decide),
    hwritable (by decide) (by decide), hwritable (by decide) (by decide),
    hwritable (by decide) (by decide), ?_, ?_, ?_, ?_⟩
  · exact (Collection.resets Pool.resets).roundTrips
  · exact (Collection.resets PoolMember.resets).roundTrips
  · exact (Collection.resets VirtualServer.resets).roundTrips
  · exact (Collection.resets RouteDomain.resets).roundTrips

end ApplianceRest
