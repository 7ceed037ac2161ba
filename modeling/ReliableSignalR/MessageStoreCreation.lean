import ReliableSignalR.EventRuns
import ReliableSignalR.DotNet

/-!
# The creation of the message store

The static constructor of `MessageStoreService` runs `CreateDatabaseIfRequired`
when the process uses the type for the first time. The file exists from
`JetCreateDatabase` on; the table with its columns and indexes exists from the
commit of the transaction on. The process can stop between any two statements,
and the next start decides by the existence of the file alone.

The statements are a list, and what is left of it is the program counter. The two
nulls that terminate a key description are left out.
-/
namespace ReliableSignalR.MessageStoreCreation
open DotNet EventRuns

inductive Coltyp
  | binary
  | currency
deriving DecidableEq, Repr

structure Column where
  name : String
  coltyp : Coltyp
  cbMax : ℕ
  columnFixed : Bool
  columnNotNULL : Bool
deriving DecidableEq, Repr

structure Index where
  name : String
  indexPrimary : Bool
  indexDisallowNull : Bool
  key : String
deriving DecidableEq, Repr

structure StoredMessage where
  id : Guid
  dateCreated : DateTime
deriving DecidableEq, Repr

/-- The list of the records is in no order of its own: ESENT keeps them by the primary
index, and nothing reads where a record stands. -/
structure Table where
  name : String
  columns : List Column
  indexes : List Index
  records : List StoredMessage
deriving DecidableEq, Repr

/-- The committed content of the file. -/
structure Database where
  tables : List Table
deriving DecidableEq, Repr

def openTable (disk : Option Database) (name : String) : Except Exception Table :=
  match disk with
  | none => .error .external
  | some database =>
      match database.tables.find? fun t => t.name == name with
      | none => .error .external
      | some table => .ok table

def Table.hasColumn (table : Table) (name : String) : Bool :=
  table.columns.any fun c => c.name == name

/-- The seek needs the primary index on the id. -/
def hasMessageAlreadyBeenProcessed (disk : Option Database) (messageId : Guid) :
    Except Exception Bool := do
  let table ← openTable disk "Message"
  if table.indexes.any fun i => i.indexPrimary && i.key == "+Id" then
    .ok (table.records.any fun r => r.id == messageId)
  else .error .external

def Database.insert (database : Database) (name : String) (record : StoredMessage) : Database :=
  ⟨database.tables.map fun t =>
    if t.name = name then { t with records := t.records ++ [record] } else t⟩

def insertMessage (disk : Option Database) (messageId : Guid) (now : DateTime) :
    Except Exception (Option Database) := do
  let table ← openTable disk "Message"
  if table.hasColumn "Id" && table.hasColumn "DateCreated" then
    .ok (disk.map fun database => database.insert "Message" ⟨messageId, now⟩)
  else .error .external

def messageExists (disk : Option Database) (messageId : Guid) : Except Exception Bool :=
  hasMessageAlreadyBeenProcessed disk messageId

def addMessageId (disk : Option Database) (messageId : Guid) (now : DateTime) :
    Except Exception (Option Database) := do
  let processed ← hasMessageAlreadyBeenProcessed disk messageId
  if processed then .ok disk else insertMessage disk messageId now

inductive Statement
  | initializeDatabaseInstance
  | returnIfFileExists
  | createDatabase
  | createTable (name : String)
  | addColumn (column : Column)
  | createIndex (index : Index)
  | commit
  | closeDatabase
  | detachDatabase
deriving DecidableEq, Repr

def idColumn : Column := ⟨"Id", .binary, 16, true, true⟩
def dateCreatedColumn : Column := ⟨"DateCreated", .currency, 0, false, true⟩
def idIndex : Index := ⟨"id_index", true, false, "+Id"⟩
def dateCreatedIndex : Index := ⟨"datecreated_index", false, true, "+DateCreated"⟩

def createIdColumn : Statement := .addColumn idColumn
def createDateCreatedColumn : Statement := .addColumn dateCreatedColumn
def createIndexes : List Statement := [.createIndex idIndex, .createIndex dateCreatedIndex]

/-- The statements of the transaction before its commit. -/
def createMessageTable : List Statement :=
  .createTable "Message" :: createIdColumn :: createDateCreatedColumn :: createIndexes

def closing : List Statement := [.closeDatabase, .detachDatabase]

def createDatabaseIfRequired : List Statement :=
  .initializeDatabaseInstance :: .returnIfFileExists :: .createDatabase ::
    (createMessageTable ++ .commit :: closing)

inductive Process
  | stopped
  /-- The static constructor has these statements to go; the open transaction has
  built this table. -/
  | creating (rest : List Statement) (uncommitted : Option Table)
  | ready
  /-- The static constructor has thrown; the type stays unusable in this process. -/
  | faulted
deriving DecidableEq, Repr

structure MessageStore where
  disk : Option Database
  process : Process
deriving DecidableEq, Repr

/-- What a statement makes of the table in the open transaction. -/
def Statement.build (uncommitted : Option Table) : Statement → Option Table
  | .createTable name => some ⟨name, [], [], []⟩
  | .addColumn column => uncommitted.map fun t => { t with columns := t.columns ++ [column] }
  | .createIndex index => uncommitted.map fun t => { t with indexes := t.indexes ++ [index] }
  | _ => uncommitted

/-- The statement completes, and these statements are left. -/
def perform (disk : Option Database) (uncommitted : Option Table) (rest : List Statement) :
    Statement → MessageStore
  | .returnIfFileExists =>
      if disk.isSome then ⟨disk, .ready⟩ else ⟨disk, .creating rest uncommitted⟩
  | .createDatabase => ⟨some ⟨[]⟩, .creating rest uncommitted⟩
  | .commit =>
      ⟨disk.map fun database => ⟨database.tables ++ uncommitted.toList⟩, .creating rest none⟩
  | statement => ⟨disk, .creating rest (statement.build uncommitted)⟩

inductive StoreEvent
  | started
  | advanced
  | threw
  | crashed
  | messageAdded (messageId : Guid) (now : DateTime)
deriving DecidableEq, Repr

def step (s : MessageStore) : StoreEvent → Option MessageStore
  | .started =>
      if s.process = .stopped then
        some { s with process := .creating createDatabaseIfRequired none }
      else none
  | .advanced =>
      match s.process with
      | .creating [] _ => some { s with process := .ready }
      | .creating (statement :: rest) uncommitted =>
          some (perform s.disk uncommitted rest statement)
      | _ => none
  | .threw =>
      match s.process with
      | .creating _ _ => some { s with process := .faulted }
      | _ => none
  | .crashed => some { s with process := .stopped }
  | .messageAdded messageId now =>
      if s.process = .ready then
        match addMessageId s.disk messageId now with
        | .error _ => some s
        | .ok disk => some { s with disk }
      else none

def messageStore : Machine MessageStore StoreEvent where
  init := ⟨none, .stopped⟩
  step := step

/-- The file has the table with its columns and indexes. -/
def HasMessageTable (disk : Option Database) : Prop :=
  ∃ table, openTable disk "Message" = .ok table ∧ table.columns = [idColumn, dateCreatedColumn] ∧
    table.indexes = [idIndex, dateCreatedIndex]

/-- The table is there, and neither method fails for want of it. -/
structure Usable (disk : Option Database) : Prop where
  table : HasMessageTable disk
  messageExists : ∀ messageId, ∃ found, messageExists disk messageId = .ok found
  addMessageId : ∀ messageId now, ∃ disk', addMessageId disk messageId now = .ok disk'

section Usable
variable {disk disk' : Option Database} {messageId : Guid} {now : DateTime}

theorem HasMessageTable.messageExists (h : HasMessageTable disk) (messageId : Guid) :
    ∃ found, hasMessageAlreadyBeenProcessed disk messageId = .ok found := by
  obtain ⟨table, hopen, -, hindexes⟩ := h
  refine ⟨table.records.any fun r => r.id == messageId, ?_⟩
  rw [hasMessageAlreadyBeenProcessed, hopen]
  change (if table.indexes.any _ then _ else _) = _
  rw [hindexes]
  rfl

theorem HasMessageTable.insertMessage (h : HasMessageTable disk) (messageId : Guid)
    (now : DateTime) :
    insertMessage disk messageId now =
      .ok (disk.map fun database => database.insert "Message" ⟨messageId, now⟩) := by
  obtain ⟨table, hopen, hcolumns, -⟩ := h
  rw [MessageStoreCreation.insertMessage, hopen]
  change (if table.hasColumn _ && table.hasColumn _ then _ else _) = _
  rw [Table.hasColumn, Table.hasColumn, hcolumns]
  rfl

theorem openTable_insert (database : Database) (name : String) (record : StoredMessage)
    {table : Table} (h : openTable (some database) name = .ok table) :
    openTable (some (database.insert name record)) name =
      .ok { table with records := table.records ++ [record] } := by
  unfold openTable at h ⊢
  simp only at h ⊢
  split at h
  · cases h
  · next t hfind =>
    obtain rfl := Except.ok.inj h
    have hname : t.name = name := by simpa using List.find?_some hfind
    rw [Database.insert, List.find?_map]
    have hsame : ((fun t : Table => t.name == name) ∘ fun t : Table =>
        if t.name = name then { t with records := t.records ++ [record] } else t) =
          fun t => t.name == name := by
      funext t
      simp only [Function.comp_apply]
      split <;> rfl
    rw [hsame, hfind, Option.map_some, if_pos hname]

theorem HasMessageTable.insert {database : Database} (h : HasMessageTable (some database))
    (record : StoredMessage) : HasMessageTable (some (database.insert "Message" record)) := by
  obtain ⟨table, hopen, hcolumns, hindexes⟩ := h
  exact ⟨_, openTable_insert database "Message" record hopen, hcolumns, hindexes⟩

theorem HasMessageTable.addMessageId (h : HasMessageTable disk) (messageId : Guid)
    (now : DateTime) :
    ∃ disk', addMessageId disk messageId now = .ok disk' ∧ HasMessageTable disk' := by
  obtain ⟨found, hfound⟩ := h.messageExists messageId
  unfold MessageStoreCreation.addMessageId
  rw [hfound]
  cases found with
  | true => exact ⟨disk, rfl, h⟩
  | false =>
      refine ⟨_, h.insertMessage messageId now, ?_⟩
      cases disk with
      | none =>
          obtain ⟨table, hopen, -⟩ := h
          cases hopen
      | some database => exact h.insert ⟨messageId, now⟩

theorem HasMessageTable.usable (h : HasMessageTable disk) : Usable disk where
  table := h
  messageExists := h.messageExists
  addMessageId messageId now := by
    obtain ⟨disk', hadded, -⟩ := h.addMessageId messageId now
    exact ⟨disk', hadded⟩

/-- The ids in the store; the rest of the subscriber's model knows it by these. -/
def ids (disk : Option Database) : List Guid :=
  match openTable disk "Message" with
  | .ok table => table.records.map StoredMessage.id
  | .error _ => []

theorem messageExists_eq (h : HasMessageTable disk) :
    messageExists disk messageId = .ok (decide (messageId ∈ ids disk)) := by
  obtain ⟨table, hopen, -, hindexes⟩ := h
  rw [MessageStoreCreation.messageExists, hasMessageAlreadyBeenProcessed, ids, hopen]
  change (if table.indexes.any _ then _ else _) = _
  rw [hindexes]
  refine (if_pos rfl).trans ?_
  congr 1
  rw [Bool.eq_iff_iff, List.any_eq_true, decide_eq_true_iff, List.mem_map]
  simp only [beq_iff_eq]

end Usable

/-- A start that is left alone runs to its end and leaves this disk. -/
def Completes (disk disk' : Option Database) : Prop :=
  ∃ n, messageStore.run ⟨disk, .stopped⟩ (.started :: List.replicate n .advanced) =
    some ⟨disk', .ready⟩

/-- A later run of `CreateDatabaseIfRequired` that completes leaves a usable store.
The question is about the disk that is left when no such run is in progress. -/
def Survives (s : MessageStore) : Prop :=
  (∀ rest uncommitted, s.process ≠ .creating rest uncommitted) →
    ∀ disk', Completes s.disk disk' → Usable disk'

/-- The file has been created and the transaction has not been committed. -/
def InWindow (s : MessageStore) : Prop :=
  ∃ rest uncommitted, s.process = .creating rest uncommitted ∧ .createDatabase ∉ rest ∧
    .commit ∈ rest

/-- The condition on the end of a run: it does not fall into the window. -/
def EndsOutsideWindow (s : MessageStore) : StoreEvent → Prop
  | .crashed | .threw => ¬InWindow s
  | _ => True

/-- The table at the end of the transaction. -/
def messageTable : Table :=
  ⟨"Message", [idColumn, dateCreatedColumn], [idIndex, dateCreatedIndex], []⟩

theorem completes_unique {disk d d' : Option Database} (h : Completes disk d)
    (h' : Completes disk d') : d = d' := by
  obtain ⟨m, hm⟩ := h
  obtain ⟨n, hn⟩ := h'
  obtain ⟨s, hs, hm⟩ := (messageStore.run_cons_eq_some).mp hm
  obtain ⟨t, ht, hn⟩ := (messageStore.run_cons_eq_some).mp hn
  rw [hs, Option.some.injEq] at ht
  have heq := Machine.run_replicate_final hm rfl (ht ▸ hn) rfl
  exact congrArg MessageStore.disk heq

/-- With a file the run returns at once; without one it creates file and table. -/
theorem completes_some (database : Database) : Completes (some database) (some database) :=
  ⟨2, rfl⟩

theorem completes_none : Completes none (some ⟨[messageTable]⟩) := ⟨12, rfl⟩

/-- Between two runs there is no file, or the file has the table. -/
def Whole (disk : Option Database) : Prop := disk = none ∨ HasMessageTable disk

theorem messageTable_hasMessageTable : HasMessageTable (some ⟨[messageTable]⟩) :=
  ⟨messageTable, rfl, rfl, rfl⟩

theorem Whole.completes {disk disk' : Option Database} (h : Whole disk)
    (hcompletes : Completes disk disk') : Usable disk' := by
  rcases h with rfl | htable
  · rw [completes_unique hcompletes completes_none]
    exact messageTable_hasMessageTable.usable
  · cases disk with
    | none =>
        obtain ⟨table, hopen, -⟩ := htable
        cases hopen
    | some database =>
        rw [completes_unique hcompletes (completes_some database)]
        exact htable.usable

/-- How far a run has got: the disk, the table in the open transaction, and the
statements that are left. -/
inductive Progress : Option Database → Option Table → List Statement → Prop
  | initializing {disk : Option Database} (whole : Whole disk) :
      Progress disk none createDatabaseIfRequired
  | checking {disk : Option Database} (whole : Whole disk) :
      Progress disk none createDatabaseIfRequired.tail
  | creating : Progress none none createDatabaseIfRequired.tail.tail
  | building (built left : List Statement) (parts : createMessageTable = built ++ left) :
      Progress (some ⟨[]⟩) (built.foldl Statement.build none) (left ++ .commit :: closing)
  | ending {disk : Option Database} {rest : List Statement} (table : HasMessageTable disk)
      (left : rest <:+ closing) : Progress disk none rest

def Sound (s : MessageStore) : Prop :=
  match s.process with
  | .stopped | .faulted => Whole s.disk
  | .ready => HasMessageTable s.disk
  | .creating rest uncommitted => Progress s.disk uncommitted rest

section Sound
variable {s t : MessageStore}

theorem Sound.whole (h : Sound s)
    (hidle : ∀ rest uncommitted, s.process ≠ .creating rest uncommitted) : Whole s.disk := by
  unfold Sound at h
  cases hprocess : s.process with
  | stopped => simpa only [hprocess] using h
  | faulted => simpa only [hprocess] using h
  | ready => exact Or.inr (by simpa only [hprocess] using h)
  | creating rest uncommitted => exact absurd hprocess (hidle rest uncommitted)

theorem Sound.survives (h : Sound s) : Survives s :=
  fun hidle _ hcompletes => (h.whole hidle).completes hcompletes

/-- Outside the window a run leaves no half-made file. -/
theorem Progress.whole {disk : Option Database} {uncommitted : Option Table}
    {rest : List Statement} (h : Progress disk uncommitted rest)
    (hwindow : .createDatabase ∈ rest ∨ .commit ∉ rest) : Whole disk := by
  cases h with
  | initializing hwhole => exact hwhole
  | checking hwhole => exact hwhole
  | creating => exact Or.inl rfl
  | building built left hparts =>
      exfalso
      rcases hwindow with hcreate | hcommit
      · have hall : Statement.createDatabase ∉ createMessageTable ++ .commit :: closing := by decide
        rw [hparts, List.append_assoc] at hall
        exact hall (List.mem_append_right built hcreate)
      · exact hcommit (List.mem_append_right left List.mem_cons_self)
  | ending htable _ => exact Or.inr htable

theorem Progress.whole_of_not_inWindow {disk : Option Database} {uncommitted : Option Table}
    {rest : List Statement} (h : Progress disk uncommitted rest)
    (houtside : ¬InWindow ⟨disk, .creating rest uncommitted⟩) : Whole disk := by
  apply h.whole
  by_contra hboth
  rw [not_or, not_not] at hboth
  exact houtside ⟨rest, uncommitted, rfl, hboth⟩

/-- In the window the file has no table. -/
theorem Progress.in_window {disk : Option Database} {uncommitted : Option Table}
    {rest : List Statement} (h : Progress disk uncommitted rest)
    (hcreate : .createDatabase ∉ rest) (hcommit : .commit ∈ rest) : disk = some ⟨[]⟩ := by
  cases h with
  | initializing _ => exact absurd (by decide) hcreate
  | checking _ => exact absurd (by decide) hcreate
  | creating => exact absurd (by decide) hcreate
  | building _ _ _ => rfl
  | ending _ hleft =>
      have hnot : Statement.commit ∉ closing := by decide
      exact absurd (hleft.subset hcommit) hnot

theorem perform_building {statement : Statement} (h : statement ∈ createMessageTable)
    (disk : Option Database) (uncommitted : Option Table) (rest : List Statement) :
    perform disk uncommitted rest statement =
      ⟨disk, .creating rest (statement.build uncommitted)⟩ := by
  cases statement with
  | createTable name => rfl
  | addColumn column => rfl
  | createIndex index => rfl
  | _ => exact absurd h (by decide)

theorem Progress.advance {disk : Option Database} {uncommitted : Option Table}
    {statement : Statement} {rest : List Statement}
    (h : Progress disk uncommitted (statement :: rest)) :
    Sound (perform disk uncommitted rest statement) := by
  generalize hall : statement :: rest = all at h
  cases h with
  | initializing hwhole =>
      obtain ⟨rfl, rfl⟩ := List.cons.inj hall
      exact .checking hwhole
  | checking hwhole =>
      obtain ⟨rfl, rfl⟩ := List.cons.inj hall
      rcases hwhole with rfl | htable
      · exact .creating
      · cases disk with
        | none => exact .creating
        | some database => exact htable
  | creating =>
      obtain ⟨rfl, rfl⟩ := List.cons.inj hall
      exact .building [] createMessageTable rfl
  | building built left hparts =>
      cases left with
      | nil =>
          obtain ⟨rfl, rfl⟩ := List.cons.inj hall
          rw [List.append_nil] at hparts
          rw [← hparts]
          exact .ending messageTable_hasMessageTable (List.suffix_refl _)
      | cons next left =>
          obtain ⟨rfl, rfl⟩ := List.cons.inj hall
          have hnext : statement ∈ createMessageTable := by
            rw [hparts]
            exact List.mem_append_right built List.mem_cons_self
          have hprogress := Progress.building (built ++ [statement]) left
            (by rw [hparts, List.append_assoc, List.singleton_append])
          rw [List.foldl_append, List.foldl_cons, List.foldl_nil] at hprogress
          rw [perform_building hnext]
          exact hprogress
  | ending htable hleft =>
      subst hall
      have hmem : statement ∈ closing := hleft.subset List.mem_cons_self
      have hrest : rest <:+ closing := (List.suffix_cons statement rest).trans hleft
      rcases List.mem_cons.mp hmem with rfl | hmem
      · exact .ending htable hrest
      · rw [List.mem_singleton.mp hmem]
        exact .ending htable hrest

theorem Progress.ended {disk : Option Database} {uncommitted : Option Table}
    (h : Progress disk uncommitted []) : HasMessageTable disk := by
  generalize hrest : [] = rest at h
  cases h with
  | ending htable _ => exact htable
  | building _ left _ => cases left <;> cases hrest
  | _ => cases hrest

theorem Sound.step (h : Sound s) {e : StoreEvent} (hends : EndsOutsideWindow s e)
    (hstep : step s e = some t) : Sound t := by
  obtain ⟨disk, process⟩ := s
  cases e with
  | started =>
      obtain ⟨hstopped, rfl⟩ := guarded hstep
      simp only at hstopped
      subst hstopped
      exact Progress.initializing h
  | advanced =>
      cases process with
      | creating rest uncommitted =>
          cases rest with
          | nil =>
              obtain rfl := Option.some.inj hstep
              exact Progress.ended h
          | cons statement rest =>
              obtain rfl := Option.some.inj hstep
              exact Progress.advance h
      | _ => cases hstep
  | threw =>
      cases process with
      | creating rest uncommitted =>
          obtain rfl := Option.some.inj hstep
          exact Progress.whole_of_not_inWindow h hends
      | _ => cases hstep
  | crashed =>
      obtain rfl := Option.some.inj hstep
      cases process with
      | creating rest uncommitted => exact Progress.whole_of_not_inWindow h hends
      | stopped => exact h
      | faulted => exact h
      | ready => exact Or.inr h
  | messageAdded messageId now =>
      obtain ⟨hready, hstep⟩ := Option.ite_none_right_eq_some.mp hstep
      simp only at hready
      subst hready
      obtain ⟨disk', hadded, htable⟩ := HasMessageTable.addMessageId h messageId now
      simp only [hadded, Option.some.injEq] at hstep
      subst hstep
      exact htable

theorem not_usable_without_table : ¬Usable (some ⟨[]⟩) := by
  intro h
  obtain ⟨table, hopen, -⟩ := h.table
  cases hopen

theorem Sound.disk_in_window (h : Sound s) (hwindow : InWindow s) : s.disk = some ⟨[]⟩ := by
  obtain ⟨rest, uncommitted, hprocess, hcreate, hcommit⟩ := hwindow
  unfold Sound at h
  rw [hprocess] at h
  exact h.in_window hcreate hcommit

/-- The next start finds the file and returns. -/
theorem not_survives (hdisk : t.disk = some ⟨[]⟩)
    (hidle : ∀ rest uncommitted, t.process ≠ .creating rest uncommitted) : ¬Survives t := by
  intro ht
  have husable := ht hidle (some ⟨[]⟩) (hdisk ▸ completes_some ⟨[]⟩)
  exact not_usable_without_table husable

/-- A run that ends in the window leaves a store that no later run repairs. -/
theorem Sound.endsOutsideWindow (h : Sound s) {e : StoreEvent}
    (hstep : MessageStoreCreation.step s e = some t) (ht : Survives t) :
    EndsOutsideWindow s e := by
  cases e with
  | crashed =>
      intro hwindow
      have hdisk := h.disk_in_window hwindow
      obtain rfl := Option.some.inj hstep
      have hdead : ¬Survives ⟨s.disk, .stopped⟩ := not_survives hdisk fun _ _ => by simp
      exact hdead ht
  | threw =>
      intro hwindow
      have hdisk := h.disk_in_window hwindow
      obtain ⟨rest, uncommitted, hprocess, -⟩ := hwindow
      simp only [MessageStoreCreation.step, hprocess] at hstep
      obtain rfl := Option.some.inj hstep
      have hdead : ¬Survives ⟨s.disk, .faulted⟩ := not_survives hdisk fun _ _ => by simp
      exact hdead ht
  | _ => trivial

end Sound

/-- In every run, whatever crashes and exceptions it has, a later start that
completes leaves a usable store precisely if no start ends between the creation of
the file and the commit. -/
theorem creation_survives_exactly_when (events : List StoreEvent) :
    messageStore.Always Survives messageStore.init events ↔
      messageStore.Meets EndsOutsideWindow messageStore.init events := by
  apply Machine.always_iff_meets_of_invariant (I := Sound) (F := fun _ _ => True)
    (fun s h => h.survives)
  · exact fun s e t h _ hends hstep => h.step hends hstep
  · exact fun s e t h _ hstep ht => h.endsOutsideWindow hstep ht
  · exact Or.inl rfl
  · exact Machine.meets_true

/-- The store is usable in every process that has got through the constructor. -/
theorem Survives.usable {s : MessageStore} (h : Survives s) {database : Database}
    (hdisk : s.disk = some database) (hready : s.process = .ready) : Usable s.disk := by
  refine h (fun _ _ => by simp [hready]) s.disk ?_
  rw [hdisk]
  exact completes_some database

/-- The first start crashes right after `JetCreateDatabase`. The second one finds the
file and returns, and no document can be processed. -/
theorem crash_after_file_creation :
    ∃ s, messageStore.run messageStore.init
        [.started, .advanced, .advanced, .advanced, .crashed, .started, .advanced, .advanced] =
          some s ∧
      s.process = .ready ∧ messageExists s.disk 7 = .error .external ∧
      addMessageId s.disk 7 0 = .error .external ∧ ¬Survives s := by
  refine ⟨⟨some ⟨[]⟩, .ready⟩, by decide, rfl, rfl, rfl, fun h => ?_⟩
  exact not_usable_without_table (h.usable rfl rfl)

end ReliableSignalR.MessageStoreCreation
