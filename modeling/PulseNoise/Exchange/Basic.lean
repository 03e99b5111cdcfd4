import PulseNoise.Json.Printer
import PulseNoise.Json.Reader
import PulseNoise.Options

/-!
# Exchange of values as JSON

A type that is exchanged as JSON has a reader and a writer. This module has the class of these
types, the texts of a type, and the instances of the small types; types that are one of two things
(a number or a list of them) are told apart by the form of the JSON value alone.
-/

namespace PulseNoise

/-- A type with a form in JSON. -/
class Exchange (α : Type) where
  /-- The JSON value of a value. -/
  write : α → Json
  /-- The value of a JSON value, if it is the form of one. -/
  read? : Json → Option α

namespace Exchange

variable {α : Type} [Exchange α]

def ofText (text : String) : Except Error α :=
  match Json.parse? text with
  | none => .error (.json "the text is not well formed")
  | some value =>
    match read? value with
    | none => .error (.json "the value has another form")
    | some a => .ok a

def compactText (a : α) : String := (write a).compact

def indentedText (a : α) : String := (write a).indented

end Exchange

/-- A system is the number of its qubits or the list of its dimensions. -/
instance : Exchange System where
  write
    | .qubits n => .ofNat n
    | .subsystems dims => .ofList .ofNat dims
  read? value :=
    match value with
    | .array _ => .subsystems <$> value.list? (·.natural?)
    | _ => .qubits <$> value.natural?

/-- An interpolation is its name. -/
instance : Exchange Interpolation where
  write kind := .ofText (toString kind)
  read? value :=
    match value.word? with
    | some "step_func" => some .stepFunction
    | some "cubic" => some .cubic
    | _ => none

/-- A relaxation time is one number, or a list with `null` for qubits that do not relax. -/
instance : Exchange RelaxationTime where
  write
    | .uniform t => .ofFloat t
    | .perQubit ts => .ofList (.ofOption .ofFloat) ts
  read? value :=
    match value with
    | .array _ => .perQubit <$> value.list? (·.optional? (·.float?))
    | _ => .uniform <$> value.float?

namespace Options

def fieldRules : List Json.FieldRule :=
  [⟨["dims"], false⟩, ⟨["t1"], true⟩, ⟨["t2"], true⟩, ⟨["device_noise"], true⟩,
    ⟨["spline_kind"], true⟩]

/-- A field that is left out when there is nothing to write. -/
def writeOptional {α : Type} [Exchange α] (name : String) (value : Option α) :
    List (String × Json) :=
  (value.map fun a => (name, Exchange.write a)).toList

end Options

/-- Options are an object from which absent settings are left out. -/
instance : Exchange Options where
  write options :=
    .ofFields ([("dims", Exchange.write options.system)]
      ++ Options.writeOptional "t1" options.t1
      ++ Options.writeOptional "t2" options.t2
      ++ [("device_noise", .bool options.deviceNoise)]
      ++ Options.writeOptional "spline_kind" options.interpolation)
  read? value := do
    match ← value.record? Options.fieldRules with
    | [system, t1, t2, deviceNoise, interpolation] =>
      let system ← Json.required? Exchange.read? system
      let t1 ← Json.defaulted? none (·.optional? Exchange.read?) t1
      let t2 ← Json.defaulted? none (·.optional? Exchange.read?) t2
      let deviceNoise ← Json.defaulted? false (·.bool?) deviceNoise
      let interpolation ← Json.defaulted? none (·.optional? Exchange.read?) interpolation
      return ⟨system, t1, t2, deviceNoise, interpolation⟩
    | _ => none

end PulseNoise
