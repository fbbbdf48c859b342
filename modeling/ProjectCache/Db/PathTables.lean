import Mathlib.Logic.Function.Basic
import ProjectCache.Db.Paths

namespace PathTables

open Textual Nix Tables Depot Narinfo SqliteDatabase

structure PathInfoLookupRow where
  storePathHash : StorePathHash
  storePath : Text
  url : Text
  compression : Text
  narHash : Text
  narSize : Int
  deriver : Option Text
  ca : Option Text
  deriving DecidableEq

structure PathValueRow where
  storePathHash : StorePathHash
  value : Text
  ordinal : Nat
  deriving DecidableEq

inductive ListTable where
  | pathReferences
  | pathSignatures
  deriving DecidableEq

instance : Keyed PathInfoLookupRow where
  clash := fun a b => a.storePathHash = b.storePathHash || a.storePath = b.storePath
  clash_comm := fun a b => by simp [eq_comm]
  clash_self := fun a => by simp

instance : Keyed PathValueRow where
  clash := fun a b => a.storePathHash = b.storePathHash && a.ordinal = b.ordinal
  clash_comm := fun a b => by simp [eq_comm]
  clash_self := fun a => by simp

def Owned (pathInfos : Table PathInfoLookupRow) (h : StorePathHash) : Prop :=
  ∃ i ∈ pathInfos.rows, i.storePathHash = h

instance (pathInfos : Table PathInfoLookupRow) (h : StorePathHash) :
    Decidable (Owned pathInfos h) := inferInstanceAs (Decidable (∃ i ∈ pathInfos.rows, _))

structure PathStore where
  pathInfos : Table PathInfoLookupRow
  lists : ListTable → Table PathValueRow
  owned : ∀ l, ∀ r ∈ (lists l).rows, Owned pathInfos r.storePathHash

namespace PathStore

def empty : PathStore where
  pathInfos := .empty
  lists := fun _ => .empty
  owned := by simp

variable (t : PathStore)

def addInfo (row : PathInfoLookupRow) (h : t.pathInfos.Free row) : PathStore where
  pathInfos := t.pathInfos.add row h
  lists := t.lists
  owned := fun l r hr => by
    obtain ⟨i, hi, hh⟩ := t.owned l r hr
    exact ⟨i, Table.mem_add.mpr (Or.inl hi), hh⟩

def insertValue (l : ListTable) (row : PathValueRow) : Option PathStore :=
  if h : (t.lists l).Free row ∧ Owned t.pathInfos row.storePathHash then
    some {
      pathInfos := t.pathInfos
      lists := Function.update t.lists l ((t.lists l).add row h.1)
      owned := fun k r hr => by
        by_cases hk : k = l
        · subst hk
          rw [Function.update_self, Table.mem_add] at hr
          rcases hr with hr | rfl
          · exact t.owned k r hr
          · exact h.2
        · rw [Function.update_of_ne hk] at hr
          exact t.owned k r hr }
  else none

def pathInfo (h : StorePathHash) : Option PathInfoLookupRow :=
  t.pathInfos.rows.find? (fun i => i.storePathHash = h)

def valueRows (l : ListTable) (h : StorePathHash) : List PathValueRow :=
  (t.lists l).rows.filter (fun r => r.storePathHash = h)

def valuesOf (l : ListTable) (h : StorePathHash) : List Text :=
  ((t.valueRows l h).insertionSort (fun a b => a.ordinal ≤ b.ordinal)).map PathValueRow.value

end PathStore

inductive Statement where
  | begin
  | insertInfo
  | insertValue (l : ListTable) (ordinal : Nat)
  | commitValidation
  | commit
  | findInfo
  | loadValues (l : ListTable)

def Statement.context : Statement → Text
  | begin => "beginning path_info transaction".toList
  | insertInfo => "inserting path_info row".toList
  | insertValue .pathReferences _ => "inserting path reference".toList
  | insertValue .pathSignatures _ => "inserting path signature".toList
  | commitValidation => "committing path_info validation transaction".toList
  | commit => "committing path_info transaction".toList
  | findInfo => "fetching path_info by hash".toList
  | loadValues .pathReferences => "loading path references".toList
  | loadValues .pathSignatures => "loading path signatures".toList

abbrev Faults := Statement → Bool

def noFaults : Faults := fun _ => false

def attempt (fails : Faults) (s : Statement) : Except Error Unit :=
  if fails s then .error (.io s.context) else .ok ()

def insertValues (fails : Faults) (l : ListTable) (h : StorePathHash) :
    List Text → Nat → PathStore → Except Error PathStore
  | [], _, t => .ok t
  | value :: rest, ordinal, t =>
    if 2 ^ 63 ≤ ordinal then .error .sizeOverflow
    else do
      attempt fails (.insertValue l ordinal)
      match t.insertValue l ⟨h, value, ordinal⟩ with
      | none => .error (.io (Statement.insertValue l ordinal).context)
      | some t' => insertValues fails l h rest (ordinal + 1) t'

def insertPathInfo (fails : Faults) (row : PathInfoLookupRow) (narinfo : NarInfo)
    (t : PathStore) : Except Error (Option PathStore) := do
  attempt fails .begin
  attempt fails .insertInfo
  if h : t.pathInfos.Free row then do
    let t ← insertValues fails .pathReferences row.storePathHash narinfo.references 0
      (t.addInfo row h)
    let t ← insertValues fails .pathSignatures row.storePathHash narinfo.signatures 0 t
    attempt fails .commit
    return some t
  else do
    attempt fails .commitValidation
    return none

def u64OfI64 (n : Int) : Except Error UInt64 :=
  if 0 ≤ n then .ok (UInt64.ofNat n.toNat) else .error .sizeOverflow

def inflateNarinfo (fails : Faults) (t : PathStore) (row : PathInfoLookupRow) :
    Except Error NarInfo := do
  attempt fails (.loadValues .pathReferences)
  attempt fails (.loadValues .pathSignatures)
  let narSize ← u64OfI64 row.narSize
  return { storePath := row.storePath
           url := row.url
           compression := row.compression
           narHash := .raw row.narHash
           narSize
           references := t.valuesOf .pathReferences row.storePathHash
           deriver := row.deriver
           signatures := t.valuesOf .pathSignatures row.storePathHash
           ca := row.ca.map NixContentAddress.raw }

def getPathInfoByHash (fails : Faults) (t : PathStore) (h : StorePathHash) :
    Except Error (Option NarInfo) := do
  attempt fails .findInfo
  match t.pathInfo h with
  | some row => some <$> inflateNarinfo fails t row
  | none => return none

variable [Base64]

def lookupRow (narinfo : NarInfo) (h : StorePathHash) (narHash : NormalizedNarHash) :
    PathInfoLookupRow where
  storePathHash := h
  storePath := narinfo.storePath
  url := narinfo.url
  compression := narinfo.compression
  narHash := narHash.display
  narSize := narinfo.narSize.toNat
  deriver := narinfo.deriver
  ca := narinfo.caNarinfoString

def rowOfNarinfo (narinfo : NarInfo) : Except Error PathInfoLookupRow :=
  match StorePathHash.parseFromStorePath narinfo.storePath with
  | .error e => .error (.storePathHash e)
  | .ok h =>
    match narinfo.normalizedNarHash with
    | .error e => .error (.narHash e)
    | .ok narHash =>
      if 2 ^ 63 ≤ narinfo.narSize.toNat then .error .sizeOverflow
      else .ok (lookupRow narinfo h narHash)

def checkExisting (fails : Faults) (t : PathStore) (h : StorePathHash) (narinfo : NarInfo) :
    Except Error Unit := do
  match ← getPathInfoByHash fails t h with
  | none => .error .pathInfoDisappeared
  | some existing => ensureCompatiblePathInfo existing narinfo

def upsertPathInfo (fails : Faults) (t : PathStore) (narinfo : NarInfo) :
    Except Error Unit × PathStore :=
  match rowOfNarinfo narinfo with
  | .error e => (.error e, t)
  | .ok row =>
    match insertPathInfo fails row narinfo t with
    | .error e => (.error e, t)
    | .ok (some t') => (.ok (), t')
    | .ok none => (checkExisting fails t row.storePathHash narinfo, t)

end PathTables
