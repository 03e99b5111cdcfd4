import PulseNoise.Description
import PulseNoise.Exchange.Basic

/-!
# Exchange of sources

The parameters of sources, the sources that are data, and the descriptions of sources as JSON. A
description is an object with its kind in the field `type`, or a list that begins with the kind;
since the kind may come last, a description is read whole before anything is made of it.
-/

namespace PulseNoise

open Sampling

namespace Sampling.DistributionKind

/-- The kind of distribution with a name. -/
def ofName? : String → Option DistributionKind
  | "normal" => some .normal
  | "uniform" => some .uniform
  | _ => none

end Sampling.DistributionKind

/-- A kind of distribution is its name. -/
instance : Exchange DistributionKind where
  write kind := .ofText (toString kind)
  read? value := do DistributionKind.ofName? (← value.word?)

/-- A perturbation is a factor or a list of samples. -/
instance : Exchange Perturbation where
  write
    | .scale factor => .ofFloat factor
    | .samples values => .ofList .ofFloat values
  read? value :=
    match value with
    | .array _ => .samples <$> value.list? (·.float?)
    | _ => .scale <$> value.float?

/-- Parameters are an object of numbers; a name that is repeated keeps its last value. -/
instance : Exchange Parameters where
  write parameters :=
    .ofFields (parameters.entries.map fun (name, value) => (name, .ofFloat value))
  read? value :=
    match value with
    | .object fields => do
      let entries ← fields.mapM fun field => do
        return (← field.1, ← field.2.float?)
      return Parameters.ofList entries
    | _ => none

namespace CrosstalkParameters

/-- The fields of crosstalk parameters; the coupling has two names. -/
def fieldRules : List Json.FieldRule :=
  [⟨["j", "J"], false⟩, ⟨["wq_dressed_cavity"], false⟩, ⟨["alpha"], false⟩]

end CrosstalkParameters

/-- Crosstalk parameters are an object of three lists. -/
instance : Exchange CrosstalkParameters where
  write parameters :=
    .ofFields
      [("j", .ofList .ofFloat parameters.coupling),
        ("wq_dressed_cavity", .ofList .ofFloat parameters.frequency),
        ("alpha", .ofList .ofFloat parameters.anharmonicity)]
  read? value := do
    match ← value.record? CrosstalkParameters.fieldRules with
    | [coupling, frequency, anharmonicity] =>
      let coupling ← Json.required? (·.list? (·.float?)) coupling
      let frequency ← Json.required? (·.list? (·.float?)) frequency
      let anharmonicity ← Json.required? (·.list? (·.float?)) anharmonicity
      return ⟨coupling, frequency, anharmonicity⟩
    | _ => none

namespace Crosstalk

def fieldRules : List Json.FieldRule := [⟨["params"], false⟩]

def writeFields (noise : Crosstalk) : List (String × Json) :=
  [("params", Exchange.write noise.parameters)]

def ofFields? : List (Option Json) → Option Crosstalk
  | [parameters] => do
    let parameters ← Json.required? Exchange.read? parameters
    return ⟨parameters⟩
  | _ => none

end Crosstalk

/-- Crosstalk is an object with its parameters. -/
instance : Exchange Crosstalk where
  write noise := .ofFields noise.writeFields
  read? value := do Crosstalk.ofFields? (← value.record? Crosstalk.fieldRules)

namespace AmplitudeNoise

/-- The fields of amplitude noise; a description may leave out the later ones in a list. -/
def fieldRules (mayTrail : Bool) : List Json.FieldRule :=
  [⟨["coeff"], false⟩, ⟨["tlist"], mayTrail⟩, ⟨["indices"], mayTrail⟩]

def writeFields (noise : AmplitudeNoise) : List (String × Json) :=
  [("coeff", Exchange.write noise.perturbation),
    ("tlist", .ofOption (.ofList .ofFloat) noise.grid),
    ("indices", .ofOption (.ofList .ofNat) noise.indices)]

def ofFields? : List (Option Json) → Option AmplitudeNoise
  | [perturbation, grid, indices] => do
    let perturbation ← Json.required? Exchange.read? perturbation
    let grid ← Json.defaulted? none (·.optional? (·.list? (·.float?))) grid
    let indices ← Json.defaulted? none (·.optional? (·.list? (·.natural?))) indices
    return ⟨perturbation, grid, indices⟩
  | _ => none

end AmplitudeNoise

/-- Amplitude noise is an object in which absent settings are `null`. -/
instance : Exchange AmplitudeNoise where
  write noise := .ofFields noise.writeFields
  read? value := do AmplitudeNoise.ofFields? (← value.record? (AmplitudeNoise.fieldRules false))

namespace Relaxation

/-- The fields of relaxation; a description may leave them out in a list. -/
def fieldRules (mayTrail : Bool) : List Json.FieldRule :=
  [⟨["t1"], mayTrail⟩, ⟨["t2"], mayTrail⟩, ⟨["targets"], mayTrail⟩]

def writeFields (noise : Relaxation) : List (String × Json) :=
  [("t1", .ofOption Exchange.write noise.t1), ("t2", .ofOption Exchange.write noise.t2),
    ("targets", .ofOption (.ofList .ofNat) noise.targets)]

def ofFields? : List (Option Json) → Option Relaxation
  | [t1, t2, targets] => do
    let t1 ← Json.defaulted? none (·.optional? Exchange.read?) t1
    let t2 ← Json.defaulted? none (·.optional? Exchange.read?) t2
    let targets ← Json.defaulted? none (·.optional? (·.list? (·.natural?))) targets
    return ⟨t1, t2, targets⟩
  | _ => none

end Relaxation

/-- Relaxation is an object in which absent settings are `null`. -/
instance : Exchange Relaxation where
  write noise := .ofFields noise.writeFields
  read? value := do Relaxation.ofFields? (← value.record? (Relaxation.fieldRules false))

namespace Description

def randomRules : List Json.FieldRule :=
  [⟨["dt"], false⟩, ⟨["distribution"], true⟩, ⟨["params"], true⟩, ⟨["seed"], true⟩,
    ⟨["indices"], true⟩]

def randomOfFields? : List (Option Json) → Option Description
  | [dt, kind, parameters, seed, indices] => do
    let dt ← Json.required? (·.float?) dt
    let kind ← Json.defaulted? .normal (fun value => value.wholeWord?.bind DistributionKind.ofName?)
      kind
    let parameters ← Json.defaulted? Parameters.empty Exchange.read? parameters
    let seed ← Json.defaulted? none (·.optional? (·.natural?)) seed
    let indices ← Json.defaulted? none (·.optional? (·.list? (·.natural?))) indices
    return .random dt kind parameters seed indices
  | _ => none

/-- The field that holds the kind. -/
def kindField : String := "type"

/-- The kind of a description and the rest of its JSON value. -/
def split? : Json → Option (String × Json)
  | .object fields =>
    match fields.filter (·.1 = some kindField) with
    | [(_, .string (some kind))] => some (kind, .object (fields.filter (·.1 ≠ some kindField)))
    | _ => none
  | .array (.string (some kind) :: items) => some (kind, .array items)
  | _ => none

/-- The description of a kind from the rest of its JSON value. -/
def ofKind? (kind : String) (value : Json) : Option Description :=
  match kind with
  | "relaxation" => do
    .relaxation <$> Relaxation.ofFields? (← value.record? (Relaxation.fieldRules true))
  | "control_amp" => do
    .amplitude <$> AmplitudeNoise.ofFields? (← value.record? (AmplitudeNoise.fieldRules true))
  | "random" => do randomOfFields? (← value.record? randomRules)
  | "zz_cross_talk" => do .crosstalk <$> Crosstalk.ofFields? (← value.record? Crosstalk.fieldRules)
  | _ => none

/-- Containers in a text with descriptions must not be nested deeper than this. -/
def maxDepth : Nat := 127

/-- A description, in which containers are nested as deep as given at most. -/
def ofJson? (depth : Nat) (value : Json) : Option Description := do
  if value.isValue depth then
    let (kind, rest) ← split? value
    ofKind? kind rest
  else none

/-- The JSON value of a description: its kind, then its fields. -/
def toJson (description : Description) : Json :=
  let kind := fun name : String => [(kindField, Json.ofText name)]
  match description with
  | relaxation noise => .ofFields (kind "relaxation" ++ noise.writeFields)
  | amplitude noise => .ofFields (kind "control_amp" ++ noise.writeFields)
  | random dt distribution parameters seed indices =>
    .ofFields (kind "random" ++
      [("dt", .ofFloat dt), ("distribution", Exchange.write distribution),
        ("params", Exchange.write parameters), ("seed", .ofOption .ofNat seed),
        ("indices", .ofOption (.ofList .ofNat) indices)])
  | crosstalk noise => .ofFields (kind "zz_cross_talk" ++ noise.writeFields)

end Description

/-- A description is an object with its kind and its fields. -/
instance : Exchange Description where
  write := Description.toJson
  read? := Description.ofJson? Description.maxDepth

/-- Descriptions are exchanged as lists, too. -/
instance : Exchange (List Description) where
  write := .ofList Description.toJson
  read? value := value.list? (Description.ofJson? (Description.maxDepth - 1))

end PulseNoise
