import JdxLinker.Gc.Graph
import JdxLinker.Lib.TaskSystem
import Mathlib.Logic.Function.Basic

/-!
# Workers

Every group has a slot, where its worker waits when there is nothing to do and where work for it is
left. Whoever leaves work in a slot takes the worker out and sets it to work; a worker that runs out
of work looks into its slot before it goes back there. Each access to the shared state is one action
of a task.
-/

namespace JdxLinker

structure GroupState where
  index : Nat
  localWork : List WorkItem
  files : List FileLayoutState
  deriving DecidableEq, Repr

structure WorkerSlot where
  work : List WorkItem
  worker : Option GroupState
  deriving DecidableEq, Repr

/-- The state that the workers share. -/
structure GraphResources where
  workerSlots : List WorkerSlot
  flags : SymbolId → ValueFlags
  errors : List String

/-- A worker that activates its files, or does its work. Each goes through requests one by one;
while files are activated, a failure is no reason not to activate the next one. -/
inductive GcTask where
  | activate (group : GroupState) (files : List (List Request))
  | work (group : GroupState) (requests : List Request)

inductive GcEvent where
  | sent (item : WorkItem)
  | processed (item : WorkItem)
  deriving DecidableEq, Repr

abbrev GcEffect := Effect GraphResources GcTask GcEvent

def GraphResources.reportError (s : GraphResources) (error : String) : GraphResources :=
  { s with errors := s.errors ++ [error] }

/-- Atomically adds to the flags of a symbol. -/
def GraphResources.fetchOr (s : GraphResources) (symbol : SymbolId) (flags : ValueFlags) :
    GraphResources :=
  { s with flags := Function.update s.flags symbol ((s.flags symbol).union flags) }

theorem fetchOr_self (s : GraphResources) (symbol : SymbolId) (flags : ValueFlags) :
    (s.fetchOr symbol flags).flags symbol = (s.flags symbol).union flags :=
  Function.update_self _ _ _

theorem fetchOr_of_ne (s : GraphResources) {symbol other : SymbolId} (flags : ValueFlags)
    (h : symbol ≠ other) : (s.fetchOr other flags).flags symbol = s.flags symbol :=
  Function.update_of_ne h _ _

def GraphResources.setSlot (s : GraphResources) (i : Nat) (slot : WorkerSlot) : GraphResources :=
  { s with workerSlots := s.workerSlots.set i slot }

/-- What a request leaves behind: the worker and the shared state, the requests that come next, and
the tasks that were spawned. -/
structure Performed where
  resources : GraphResources
  group : GroupState
  requests : List Request
  spawned : List GcTask
  events : List GcEvent

/-- Leaves work in a slot. A worker that waits there is set to work. -/
def sendWork (s : GraphResources) (group : GroupState) (item : WorkItem) : Performed :=
  match s.workerSlots[item.fileId.group]? with
  | some slot =>
      { resources := s.setSlot item.fileId.group ⟨slot.work ++ [item], none⟩
        group
        requests := []
        spawned := (slot.worker.map fun worker => GcTask.work worker []).toList
        events := [.sent item] }
  | none => ⟨s.reportError "index out of bounds", group, [], [], []⟩

/-- The requests that follow a reference to a symbol whose flags were `previous`. -/
def Reference.follow (reference : Reference) (previous : ValueFlags) : List Request :=
  (if previous.hasResolution then [] else
    [.setFlags reference.symbol reference.firstFlags, .send (.loadGlobalSymbol reference.symbol)])
  ++ (reference.undefined.map Request.fail).toList
  ++ if reference.flagsToAdd.copyRelocation && !previous.copyRelocation then
      [.send (.copyRelocateSymbol reference.symbol)]
    else []

theorem Reference.follow_setFlags {reference : Reference} {previous : ValueFlags} {symbol : SymbolId}
    {flags : ValueFlags} (h : .setFlags symbol flags ∈ reference.follow previous) :
    symbol = reference.symbol := by
  simp only [follow, List.mem_append] at h
  rcases h with (h | h) | h
  · split at h <;> simp_all
  · cases hundefined : reference.undefined <;> simp [hundefined] at h
  · split at h <;> simp at h

theorem Reference.follow_exportSymbol {reference : Reference} {previous : ValueFlags}
    {symbol : SymbolId} : .exportSymbol symbol ∉ reference.follow previous := by
  simp only [follow, List.mem_append, not_or]
  refine ⟨⟨?_, ?_⟩, ?_⟩
  · split <;> simp
  · cases reference.undefined <;> simp
  · split <;> simp

namespace GraphInputs

variable (inputs : GraphInputs)

/-- One access to the shared state. -/
def perform (s : GraphResources) (group : GroupState) : Request → Performed
  | .reference reference =>
      ⟨s.fetchOr reference.symbol reference.flagsToAdd, group,
        reference.follow (s.flags reference.symbol), [], []⟩
  | .setFlags symbol flags => ⟨s.fetchOr symbol flags, group, [], [], []⟩
  | .exportSymbol symbol =>
      ⟨s.fetchOr symbol { exportDynamic := true }, group,
        if (s.flags symbol).hasResolution then [] else inputs.loadObjectSymbol symbol, [], []⟩
  | .send item =>
      if item.fileId.group = group.index then
        ⟨s, { group with localWork := group.localWork ++ [item] }, [], [], [.sent item]⟩
      else
        sendWork s group item
  | .sendToSlot item => sendWork s group item
  | .fail error => ⟨s.reportError error, group, [], [], []⟩

/-- A worker without local work goes back to its slot, or takes the work that is there. -/
def checkSlot (s : GraphResources) (group : GroupState) : GcEffect :=
  match s.workerSlots[group.index]? with
  | some slot =>
      if slot.work = [] then
        ⟨s.setSlot group.index ⟨[], some group⟩, [], []⟩
      else
        ⟨s.setSlot group.index ⟨[], slot.worker⟩, [.work { group with localWork := slot.work } []],
          []⟩
  | none => ⟨s.reportError "index out of bounds", [], []⟩

/-- The worker pops an item and works on its file, which no other worker sees. -/
def startWork (s : GraphResources) (group : GroupState) (item : WorkItem) : GcEffect :=
  match group.files[item.fileId.file]? with
  | some file =>
      match inputs.doWork file item with
      | .ok (file', requests) =>
          ⟨s, [.work { group with files := group.files.set item.fileId.file file' } requests],
            [.processed item]⟩
      | .error error => ⟨s.reportError error, [], [.processed item]⟩
  | none => ⟨s.reportError "index out of bounds", [], []⟩

/-- One action of a task. -/
def act : GcTask → GraphResources → GcEffect
  | .activate group [], s => ⟨s, [.work group []], []⟩
  | .activate group ([] :: files), s => ⟨s, [.activate group files], []⟩
  | .activate group ((.fail error :: _) :: files), s =>
      ⟨s.reportError error, [.activate group files], []⟩
  | .activate group ((request :: requests) :: files), s =>
      let performed := inputs.perform s group request
      ⟨performed.resources,
        .activate performed.group ((performed.requests ++ requests) :: files) :: performed.spawned,
        performed.events⟩
  | .work _ (.fail error :: _), s => ⟨s.reportError error, [], []⟩
  | .work group (request :: requests), s =>
      let performed := inputs.perform s group request
      ⟨performed.resources,
        .work performed.group (performed.requests ++ requests) :: performed.spawned,
        performed.events⟩
  | .work group [], s =>
      match group.localWork.getLast? with
      | some item =>
          inputs.startWork s { group with localWork := group.localWork.dropLast } item
      | none => checkSlot s group

/-- The worker of a group before it is activated. -/
def newGroup (index : Nat) (files : List FileInput) : GroupState :=
  ⟨index, [], files.map (·.createLayoutState)⟩

def initialTask (index : Nat) (files : List FileInput) : GcTask :=
  .activate (newGroup index files)
    (files.zipIdx.map fun (file, i) => inputs.activate ⟨index, i⟩ file)

/-- The tasks that activate the groups. -/
def initialTasks : List GcTask :=
  inputs.groups.zipIdx.map fun (files, index) => inputs.initialTask index files

def initialResources : GraphResources where
  workerSlots := List.replicate inputs.groups.length ⟨[], none⟩
  flags := inputs.symbolFlags
  errors := []

/-- The runs of the traversal. -/
def TraversalRun (trace : List GcEvent) (c : Config GraphResources GcTask) : Prop :=
  TaskSystem.Run inputs.act ⟨inputs.initialResources, inputs.initialTasks⟩ trace c

end GraphInputs

/-- The groups as they are after the traversal. -/
def unwrapWorkerStates (workerSlots : List WorkerSlot) : List GroupState :=
  workerSlots.filterMap (·.worker)

end JdxLinker
