import Pipeline.Graph.Error
import Pipeline.Value.Compare

namespace Pipeline

structure Report where
  kind : Kind
  message : String
  stages : Option (List Value)
  stage : Option Value

namespace Report

/-- The function named when a kind is given too few or too many parts. -/
def maker (k : Kind) : String := k.label ++ ".__init__"

/-- The parts a kind takes: the name of the one it needs and how many it takes at most; none for
kinds that take any. -/
def parameter? : Kind → Option (String × Nat)
  | .general | .invalid | .construction | .mutation => none
  | .cycle => some ("stages", 2)
  | .noSource | .noSink | .island => some ("stages", 1)
  | .missing => some ("stage", 2)
  | .duplicate => some ("stage", 1)

def joined (position : Nat) : List Value → Except Misuse (List String)
  | [] => .ok []
  | .text s :: rest => (joined (position + 1) rest).map (s :: ·)
  | v :: _ => .error (.notText position v.kind)

def namesOf (members : List Value) : Except Misuse String := do
  return ", ".intercalate (← joined 0 (← Value.sorted members))

def inOrder (members : List Value) : List Value :=
  match Value.sorted members with
  | .ok sorted => sorted
  | .error _ => members

def ofStages (k : Kind) (stages : Value) (words : Option Value) : Except Misuse Report := do
  let members := Value.distinct (← stages.hashedItems)
  let message ← match words with
    | some w => (w.plain none).mapError .fault
    | none => k.stagesMessage <$> namesOf members
  return ⟨k, message, some (inOrder members), none⟩

/-- A report about one stage. Given words count only if they are not empty. -/
def ofStage (k : Kind) (stage : Value) (words : Option Value) : Except Value.Fault Report := do
  let usual := if k = .duplicate then duplicateMessage stage none else missingMessage stage none
  let message ← match words with
    | some w => if w.truthy then w.plain none else usual
    | none => usual
  return ⟨k, message, none, some stage⟩

def plainMessage : List Value → Except Value.Fault String
  | [] => .ok ""
  | [v] => v.plain none
  | vs => (Value.tuple vs).literal none

def present (v : Value) : Option Value :=
  match v with
  | .null => none
  | v => some v

def ofParts (k : Kind) (parts : List Value) : Except Misuse Report :=
  match parameter? k with
  | none => (plainMessage parts).mapError .fault |>.map (⟨k, ·, none, none⟩)
  | some (name, most) =>
    match parts with
    | [] => .error (.tooFewArguments (maker k) [name])
    | first :: rest =>
      if most < parts.length then
        .error (.tooManyArguments (maker k) 2 (most + 1) (parts.length + 1))
      else
        let words := rest.head?.bind present
        if name = "stages" then ofStages k first words
        else (ofStage k first words).mapError .fault

end Report

end Pipeline
