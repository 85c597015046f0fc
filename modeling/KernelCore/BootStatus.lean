import KernelCore.Notice

/-!
# Boot status

The components of the kernel and how far each of them got at boot. Boot runs in phases; each phase
sets up one component, and the first phase that fails stops the ones after it.
-/
namespace KernelCore

/-- How far the set-up of a component got. -/
inductive ComponentStatus where
  | notStarted
  | inProgress
  | completed
  | failed (reason : String)
  deriving DecidableEq, Repr

def ComponentStatus.text : ComponentStatus → String
  | .notStarted => "Not Started"
  | .inProgress => "In Progress"
  | .completed => "Completed"
  | .failed reason => "Failed: " ++ reason

structure Component where
  name : String
  status : ComponentStatus
  deriving DecidableEq, Repr

/-- The components in the order in which they were registered, and the notices of the boot. -/
structure Boot where
  components : List Component := []
  notices : List Notice := []
  deriving DecidableEq, Repr

namespace Boot

instance : Journal Boot where
  note n b := { b with notices := b.notices ++ [n] }

def register (b : Boot) (name : String) : Boot :=
  if b.components.any (·.name = name) then b
  else { b with components := b.components ++ [⟨name, .notStarted⟩] }

/-- Sets the status of the first component of a name. -/
def setFirst (name : String) (status : ComponentStatus) : List Component → List Component
  | [] => []
  | c :: rest => if c.name = name then ⟨name, status⟩ :: rest else c :: setFirst name status rest

/-- Sets the status of a component. One that is not registered has none. -/
def update (b : Boot) (name : String) (status : ComponentStatus) : Boot :=
  { b with components := setFirst name status b.components }

def status? (b : Boot) (name : String) : Option ComponentStatus :=
  (b.components.find? (·.name = name)).map Component.status

/-- There are components, and all of them are set up. -/
def ready (b : Boot) : Bool :=
  !b.components.isEmpty && b.components.all (·.status = .completed)

/-- Runs a phase: `body` sets up the component `name`. -/
def runPhase (name : String) (body : Boot → Except String Unit × Boot) (b : Boot) :
    Except String Unit × Boot :=
  match body ((b.register name).update name .inProgress) with
  | (.ok (), b) =>
    (.ok (), Journal.note (.info ("[ OK ] " ++ name)) (b.update name .completed))
  | (.error reason, b) =>
    (.error reason,
      Journal.note (.error ("[FAIL] " ++ name ++ ": " ++ reason)) (b.update name (.failed reason)))

end Boot

/-- A phase of the boot: its component, the phases that run inside it, and the reason for which it
fails after them, if it does. -/
inductive Phase where
  | mk (name : String) (inner : List Phase) (failure : Option String)

namespace Phase

/-- The result of a phase whose inner phases are done. -/
def finish (failure : Option String) : Except String Unit × Boot → Except String Unit × Boot
  | (.error reason, b) => (.error reason, b)
  | (.ok (), b) =>
    match failure with
    | some reason => (.error reason, b)
    | none => (.ok (), b)

mutual

def run : Phase → Boot → Except String Unit × Boot
  | .mk name inner failure, b => Boot.runPhase name (fun b => finish failure (runAll inner b)) b

def runAll : List Phase → Boot → Except String Unit × Boot
  | [], b => (.ok (), b)
  | phase :: phases, b =>
    match run phase b with
    | (.error reason, b) => (.error reason, b)
    | (.ok (), b) => runAll phases b

end

end Phase
end KernelCore
