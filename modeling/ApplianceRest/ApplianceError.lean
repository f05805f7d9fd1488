import ApplianceRest.Record.Reader

/-!
# Errors the appliance reports

The document with which the appliance says why it refused a request.
-/

namespace ApplianceRest

open Record (Fields Wire)

/-- What the appliance says about a refused request: a code, a sentence, and perhaps more lines. -/
structure ApplianceError where
  code : Int64 := 0
  message : String := ""
  stack : List String := []
deriving DecidableEq

namespace ApplianceError

/-- The fields of an error document; all of them may be missing. -/
def fields : Fields :=
  .cons "code" .defaulted (.word .i64) <|
  .cons "message" .defaulted .text <|
  .cons "errorStack" .defaulted (.list .text) <|
  .nil

instance : Wire ApplianceError where
  shape := .record "RequestError" fields
  row v := (v.code, v.message, v.stack, ())
  ofRow := fun (code, message, stack, ()) => ⟨code, message, stack⟩
  ofRow_row _ := rfl
  row_ofRow _ := rfl

/-- The error document that the body of an answer denotes. -/
def ofBody (body : Json.Bytes) : Except Json.Error ApplianceError :=
  Record.decode ApplianceError body

/-- The error in one line. -/
def summary (e : ApplianceError) : String :=
  e.message ++ " (code: " ++ toString e.code.toInt ++ ")"

/-- The error with each further line on a line of its own, indented. -/
def detailed (e : ApplianceError) : String :=
  e.stack.foldl (fun text line => text ++ "\n   " ++ line) e.summary

end ApplianceError

end ApplianceRest
