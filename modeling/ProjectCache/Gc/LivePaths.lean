import ProjectCache.Core.Base32
import ProjectCache.Gc.Roots

namespace LivePaths

open Textual Nix Db Depot Programs Closure

structure LivePathRow where
  storePathHash : StorePathHash
  storePath : Text
  deriving DecidableEq

structure PathReferenceRow where
  storePathHash : StorePathHash
  referenceStorePath : Text
  ordinal : Nat
  deriving DecidableEq

structure Tables where
  pathInfos : List LivePathRow
  pathReferences : List PathReferenceRow
  pathObjects : List PathObjectRow

-- WITH RECURSIVE with UNION: the recursive query sees one row of the queue at a time.
def withRecursive {A : Type} [DecidableEq A] (bound : Nat) (initial : List A)
    (recursive : List A → List A) : List A :=
  recursiveUnion (fun a => recursive [a]) bound [] initial.dedup

def SQLITE_MAX_VARIABLE_NUMBER : Nat := 32766

def tooManyVariables : Error := .io "too many SQL variables".toList

def pushRootValues (roots : List StorePathHash) : Except Error (List (Option StorePathHash)) :=
  if roots.isEmpty then .ok ([none].filter (fun _ => false))
  else if SQLITE_MAX_VARIABLE_NUMBER < roots.length then .error tooManyVariables
  else .ok (roots.map some)

def pushLivePathsCte (t : Tables) (roots : List StorePathHash) :
    Except Error (List LivePathRow) := do
  let rootStorePathHashes ← pushRootValues roots
  return withRecursive t.pathInfos.length
    (t.pathInfos.flatMap (fun pi =>
      (rootStorePathHashes.filter (fun root => root = some pi.storePathHash)).map (fun _ =>
        ⟨pi.storePathHash, pi.storePath⟩))).dedup
    (fun livePaths => (livePaths.flatMap (fun lp =>
      (t.pathReferences.filter (fun pr => pr.storePathHash = lp.storePathHash)).flatMap (fun pr =>
        (t.pathInfos.filter (fun refPi => refPi.storePath = pr.referenceStorePath)).map
          (fun refPi => ⟨refPi.storePathHash, refPi.storePath⟩)))).dedup)

structure LiveObjectsCte where
  livePaths : List LivePathRow
  liveObjects : List Text

def pushLiveObjectsCte (t : Tables) (roots : List StorePathHash) : Except Error LiveObjectsCte := do
  let rootStorePathHashes ← pushRootValues roots
  let livePaths : List LivePathRow := withRecursive t.pathInfos.length
    (t.pathInfos.flatMap (fun pi =>
      (rootStorePathHashes.filter (fun root => root = some pi.storePathHash)).map (fun _ =>
        ⟨pi.storePathHash, pi.storePath⟩))).dedup
    (fun livePaths => (livePaths.flatMap (fun lp =>
      (t.pathReferences.filter (fun pr => pr.storePathHash = lp.storePathHash)).flatMap (fun pr =>
        (t.pathInfos.filter (fun refPi => refPi.storePath = pr.referenceStorePath)).map
          (fun refPi => ⟨refPi.storePathHash, refPi.storePath⟩)))).dedup)
  return {
    livePaths
    liveObjects := (livePaths.flatMap (fun lp =>
      (t.pathObjects.filter (fun po => po.storePathHash = lp.storePathHash)).map
        PathObjectRow.objectPath)).dedup }

def liveStorePathHashes (t : Tables) (roots : List StorePathHash) :
    Except Error (List StorePathHash) := do
  let livePaths ← pushLivePathsCte t roots
  return ((livePaths.map LivePathRow.storePathHash).dedup).insertionSort (· ≤ ·)

def liveStorageObjectPaths (t : Tables) (roots : List StorePathHash) :
    Except Error (List Text) := do
  let livePaths ← pushLivePathsCte t roots
  return ((livePaths.flatMap (fun lp =>
    (t.pathObjects.filter (fun po => po.storePathHash = lp.storePathHash)).map
      PathObjectRow.objectPath)).dedup).insertionSort (· ≤ ·)

def Refers (t : Tables) (h h' : StorePathHash) : Prop :=
  ∃ pr ∈ t.pathReferences, pr.storePathHash = h ∧
    ∃ pi ∈ t.pathInfos, pi.storePath = pr.referenceStorePath ∧ pi.storePathHash = h'

def Registered (t : Tables) (h : StorePathHash) : Prop := ∃ pi ∈ t.pathInfos, pi.storePathHash = h

def Live (t : Tables) (roots : List StorePathHash) (h : StorePathHash) : Prop :=
  ∃ root ∈ roots, Registered t root ∧ Relation.ReflTransGen (Refers t) root h

section

variable {t : Tables} {roots : List StorePathHash} {h : StorePathHash} {o : Text}

def initialRows (t : Tables) (roots : List StorePathHash) : List LivePathRow :=
  (t.pathInfos.flatMap (fun pi =>
    ((roots.map some).filter (fun root => root = some pi.storePathHash)).map (fun _ =>
      (⟨pi.storePathHash, pi.storePath⟩ : LivePathRow)))).dedup

def nextRows (t : Tables) (lp : LivePathRow) : List LivePathRow :=
  ([lp].flatMap (fun lp =>
    (t.pathReferences.filter (fun pr => pr.storePathHash = lp.storePathHash)).flatMap (fun pr =>
      (t.pathInfos.filter (fun refPi => refPi.storePath = pr.referenceStorePath)).map (fun refPi =>
        (⟨refPi.storePathHash, refPi.storePath⟩ : LivePathRow))))).dedup

def livePaths (t : Tables) (roots : List StorePathHash) : List LivePathRow :=
  recursiveUnion (nextRows t) t.pathInfos.length [] (initialRows t roots).dedup

def liveObjects (t : Tables) (roots : List StorePathHash) : List Text :=
  ((livePaths t roots).flatMap (fun lp =>
    (t.pathObjects.filter (fun po => po.storePathHash = lp.storePathHash)).map
      PathObjectRow.objectPath)).dedup

theorem pushRootValues_ok (h : roots.length ≤ SQLITE_MAX_VARIABLE_NUMBER) :
    pushRootValues roots = .ok (roots.map some) := by
  unfold pushRootValues
  split
  · rename_i hroots
    rw [List.isEmpty_iff.mp hroots]
    rfl
  · rw [if_neg (Nat.not_lt.mpr h)]

theorem pushRootValues_error (h : SQLITE_MAX_VARIABLE_NUMBER < roots.length) :
    pushRootValues roots = .error tooManyVariables := by
  unfold pushRootValues
  split
  · rename_i hroots
    rw [List.isEmpty_iff.mp hroots] at h
    exact absurd h (Nat.not_lt_zero _)
  · rfl

theorem pushLivePathsCte_ok (h : roots.length ≤ SQLITE_MAX_VARIABLE_NUMBER) :
    pushLivePathsCte t roots = .ok (livePaths t roots) := by
  rw [pushLivePathsCte, pushRootValues_ok h]
  rfl

theorem pushLiveObjectsCte_ok (h : roots.length ≤ SQLITE_MAX_VARIABLE_NUMBER) :
    pushLiveObjectsCte t roots = .ok ⟨livePaths t roots, liveObjects t roots⟩ := by
  rw [pushLiveObjectsCte, pushRootValues_ok h]
  rfl

theorem mem_initialRows {lp : LivePathRow} :
    lp ∈ initialRows t roots ↔ lp ∈ t.pathInfos ∧ lp.storePathHash ∈ roots := by
  simp only [initialRows, List.mem_dedup, List.mem_flatMap, List.mem_map, List.mem_filter,
    decide_eq_true_eq]
  constructor
  · rintro ⟨pi, hpi, _, ⟨⟨root, hr, rfl⟩, he⟩, rfl⟩
    exact ⟨hpi, Option.some.inj he ▸ hr⟩
  · rintro ⟨hlp, hr⟩
    exact ⟨lp, hlp, _, ⟨⟨_, hr, rfl⟩, rfl⟩, rfl⟩

theorem mem_nextRows {lp next : LivePathRow} : next ∈ nextRows t lp ↔ next ∈ t.pathInfos ∧
    ∃ pr ∈ t.pathReferences, pr.storePathHash = lp.storePathHash ∧
      next.storePath = pr.referenceStorePath := by
  simp only [nextRows, List.mem_dedup, List.flatMap_singleton, List.mem_flatMap, List.mem_map,
    List.mem_filter, decide_eq_true_eq]
  constructor
  · rintro ⟨pr, ⟨hpr, ho⟩, pi, ⟨hpi, hp⟩, rfl⟩
    exact ⟨hpi, pr, hpr, ho, hp⟩
  · rintro ⟨hn, pr, hpr, ho, hp⟩
    exact ⟨pr, ⟨hpr, ho⟩, next, ⟨hn, hp⟩, rfl⟩

theorem nextRows_subset : ∀ lp ∈ t.pathInfos, ∀ next ∈ nextRows t lp, next ∈ t.pathInfos :=
  fun _ _ _ hn => (mem_nextRows.mp hn).1

theorem initialRows_subset : ∀ lp ∈ initialRows t roots, lp ∈ t.pathInfos :=
  fun _ hl => (mem_initialRows.mp hl).1

theorem live_iff :
    Live t roots h ↔ ∃ lp, Reachable (nextRows t) (initialRows t roots) lp ∧
      lp.storePathHash = h := by
  constructor
  · rintro ⟨root, hroot, ⟨first, hfirst, rfl⟩, hpath⟩
    induction hpath with
    | refl => exact ⟨first, ⟨first, mem_initialRows.mpr ⟨hfirst, hroot⟩, .refl⟩, rfl⟩
    | tail _ hstep ih =>
      obtain ⟨lp, ⟨start, hstart, hreach⟩, rfl⟩ := ih
      obtain ⟨pr, hpr, ho, pi, hpi, hp, rfl⟩ := hstep
      exact ⟨pi, ⟨start, hstart, hreach.tail (mem_nextRows.mpr ⟨hpi, pr, hpr, ho, hp⟩)⟩, rfl⟩
  · rintro ⟨lp, ⟨first, hfirst, hreach⟩, rfl⟩
    obtain ⟨hm, hroot⟩ := mem_initialRows.mp hfirst
    refine ⟨first.storePathHash, hroot, ⟨first, hm, rfl⟩, ?_⟩
    induction hreach with
    | refl => exact .refl
    | tail _ hstep ih =>
      obtain ⟨hn, pr, hpr, ho, hp⟩ := mem_nextRows.mp hstep
      exact ih.tail ⟨pr, hpr, ho, _, hn, hp, rfl⟩

theorem mem_livePaths {lp : LivePathRow} :
    lp ∈ livePaths t roots ↔ Reachable (nextRows t) (initialRows t roots) lp :=
  (recursiveUnion_initial nextRows_subset initialRows_subset).2 lp

theorem mem_liveObjects : o ∈ liveObjects t roots ↔
    ∃ po ∈ t.pathObjects, Live t roots po.storePathHash ∧ po.objectPath = o := by
  simp only [liveObjects, List.mem_dedup, List.mem_flatMap, List.mem_map, List.mem_filter,
    decide_eq_true_eq, mem_livePaths, live_iff]
  constructor
  · rintro ⟨lp, hreach, po, ⟨hpo, ho⟩, rfl⟩
    exact ⟨po, hpo, ⟨lp, hreach, ho.symm⟩, rfl⟩
  · rintro ⟨po, hpo, ⟨lp, hreach, ho⟩, rfl⟩
    exact ⟨lp, hreach, po, ⟨hpo, ho.symm⟩, rfl⟩

theorem sorted_distinct {A : Type} [DecidableEq A] {le : A → A → Prop} [DecidableRel le]
    [Std.Total le] [IsTrans A le] (rows : List A) :
    (rows.dedup.insertionSort le).Pairwise (fun a b => le a b ∧ a ≠ b) := by
  have hsorted := List.pairwise_insertionSort le rows.dedup
  have hnodup : (rows.dedup.insertionSort le).Nodup :=
    (List.perm_insertionSort _ _).nodup_iff.mpr (List.nodup_dedup rows)
  exact hsorted.imp₂ (fun _ _ hle hne => ⟨hle, hne⟩) hnodup

structure Computes (t : Tables) (roots : List StorePathHash) (found : List LivePathRow) :
    Prop where
  ends : ∀ states : Nat → Progress LivePathRow, states 0 = ([], (initialRows t roots).dedup) →
    ¬ ∀ n, n ≤ t.pathInfos.length → Round (nextRows t) (states n) (states (n + 1))
  runs : Relation.ReflTransGen (Round (nextRows t)) ([], (initialRows t roots).dedup) (found, [])
  exact : ∀ result, Relation.ReflTransGen (Round (nextRows t)) ([], (initialRows t roots).dedup)
    (result, []) → result.Perm found

theorem computes (t : Tables) (roots : List StorePathHash) :
    Computes t roots (livePaths t roots) where
  ends := rounds_end nextRows_subset initialRows_subset
  runs := recursiveUnion_rounds nextRows_subset (kept_initial initialRows_subset)
    (Nat.le_add_right _ _)
  exact := fun result hresult => by
    have hdistinct : (livePaths t roots).Nodup :=
      (recursiveUnion_initial nextRows_subset initialRows_subset).1
    obtain ⟨hnodup, hmem⟩ := rounds_exact nextRows_subset initialRows_subset hresult
    refine (List.perm_ext_iff_of_nodup hnodup hdistinct).mpr (fun b => ?_)
    rw [hmem, mem_livePaths]

structure FindsClosure (t : Tables) (roots hashes : List StorePathHash) (objects : List Text)
    (cte : LiveObjectsCte) : Prop where
  livePaths_ok : pushLivePathsCte t roots = .ok cte.livePaths
  liveObjects_ok : pushLiveObjectsCte t roots = .ok cte
  hashes_ok : liveStorePathHashes t roots = .ok hashes
  objects_ok : liveStorageObjectPaths t roots = .ok objects
  computes : Computes t roots cte.livePaths
  hashes_ordered : hashes.Pairwise (· < ·)
  hashes_exact : ∀ h, h ∈ hashes ↔ Live t roots h
  objects_ordered : objects.Pairwise (· < ·)
  objects_exact : ∀ o, o ∈ objects ↔
    ∃ po ∈ t.pathObjects, po.storePathHash ∈ hashes ∧ po.objectPath = o
  copies_agree : cte.liveObjects.Perm objects

theorem finds_closure_iff : (∃ hashes objects cte, FindsClosure t roots hashes objects cte) ↔
    roots.length ≤ SQLITE_MAX_VARIABLE_NUMBER := by
  constructor
  · rintro ⟨hashes, objects, cte, h⟩
    by_contra hlong
    have hfound := h.livePaths_ok
    rw [pushLivePathsCte, pushRootValues_error (Nat.not_le.mp hlong)] at hfound
    cases hfound
  · intro h
    have hmem : ∀ p, p ∈ (((livePaths t roots).map LivePathRow.storePathHash).dedup).insertionSort
        (· ≤ ·) ↔ Live t roots p := by
      intro p
      simp only [List.mem_insertionSort, List.mem_dedup, List.mem_map, mem_livePaths, live_iff]
    refine ⟨_, _, ⟨livePaths t roots, liveObjects t roots⟩, pushLivePathsCte_ok h,
      pushLiveObjectsCte_ok h, ?_, ?_, computes t roots,
      (sorted_distinct _).imp (fun h => lt_of_le_of_ne h.1 h.2), hmem,
      (sorted_distinct _).imp (fun h => lt_of_le_of_ne h.1 h.2), fun o => ?_,
      (List.perm_insertionSort _ _).symm⟩
    · rw [liveStorePathHashes, pushLivePathsCte_ok h]
      rfl
    · rw [liveStorageObjectPaths, pushLivePathsCte_ok h]
      rfl
    · simp only [hmem]
      rw [← mem_liveObjects]
      exact List.mem_insertionSort _

end

def tablesOf (db : Database) : Tables where
  pathInfos := db.pathInfos.rows.map (fun pi => ⟨pi.storePathHash, pi.storePath⟩)
  pathReferences := db.pathInfos.rows.flatMap (fun pi =>
    pi.references.zipIdx.map (fun r => ⟨pi.storePathHash, r.1, r.2⟩))
  pathObjects := db.pathObjects.rows

section

variable {db : Database} {roots : List StorePathHash} {h h' : StorePathHash} {o : Text}

theorem refers_tablesOf : Refers (tablesOf db) h h' ↔
    ∃ x ∈ db.pathInfos.rows, x.storePathHash = h ∧
      ∃ y ∈ db.referencedPaths x, y.storePathHash = h' := by
  simp only [Refers, tablesOf, List.mem_flatMap, List.mem_map, Gc.mem_referencedPaths]
  constructor
  · rintro ⟨pr, ⟨x, hx, ⟨r, ordinal⟩, hr, rfl⟩, rfl, pi, ⟨y, hy, rfl⟩, hp, rfl⟩
    have hp' : y.storePath = r := hp
    exact ⟨x, hx, rfl, y, ⟨hy, hp' ▸ List.fst_mem_of_mem_zipIdx hr⟩, rfl⟩
  · rintro ⟨x, hx, rfl, y, ⟨hy, hr⟩, rfl⟩
    obtain ⟨ordinal, ho⟩ := List.mem_iff_getElem?.mp hr
    exact ⟨_, ⟨x, hx, _, List.mk_mem_zipIdx_iff_getElem?.mpr ho, rfl⟩, rfl, _, ⟨y, hy, rfl⟩, rfl,
      rfl⟩

theorem row_eq_of_hash {x y : PathInfoRow} (hx : x ∈ db.pathInfos.rows)
    (hy : y ∈ db.pathInfos.rows) (he : x.storePathHash = y.storePathHash) : x = y :=
  Tables.Table.eq_of_clash hx hy (by simp [Tables.Keyed.clash, he])

theorem live_tablesOf : Live (tablesOf db) roots h ↔
    ∃ root ∈ db.pathInfos.rows, root.storePathHash ∈ roots ∧ ∃ pi,
      Relation.ReflTransGen (fun x y => y ∈ db.referencedPaths x) root pi ∧
        pi.storePathHash = h := by
  constructor
  · rintro ⟨root, hroot, ⟨first, hfirst, rfl⟩, hpath⟩
    obtain ⟨x, hx, rfl⟩ := List.mem_map.mp hfirst
    suffices hreached : ∃ pi ∈ db.pathInfos.rows,
        Relation.ReflTransGen (fun x y => y ∈ db.referencedPaths x) x pi ∧ pi.storePathHash = h by
      obtain ⟨pi, -, hpi⟩ := hreached
      exact ⟨x, hx, hroot, pi, hpi⟩
    induction hpath with
    | refl => exact ⟨x, hx, .refl, rfl⟩
    | tail _ hstep ih =>
      obtain ⟨pi, hpi, hreach, rfl⟩ := ih
      obtain ⟨z, hz, he, y, hy, rfl⟩ := refers_tablesOf.mp hstep
      rw [row_eq_of_hash hz hpi he] at hy
      exact ⟨y, (Gc.mem_referencedPaths.mp hy).1, hreach.tail hy, rfl⟩
  · rintro ⟨root, hm, hroot, pi, hpath, rfl⟩
    refine ⟨root.storePathHash, hroot, ⟨_, List.mem_map_of_mem hm, rfl⟩, ?_⟩
    suffices hreached : pi ∈ db.pathInfos.rows ∧
        Relation.ReflTransGen (Refers (tablesOf db)) root.storePathHash pi.storePathHash from
      hreached.2
    induction hpath with
    | refl => exact ⟨hm, .refl⟩
    | tail _ hstep ih =>
      exact ⟨(Gc.mem_referencedPaths.mp hstep).1,
        ih.2.tail (refers_tablesOf.mpr ⟨_, ih.1, rfl, _, hstep, rfl⟩)⟩

theorem mem_liveObjects_iff :
    o ∈ db.liveObjects roots ↔ o ∈ liveObjects (tablesOf db) roots := by
  rw [Gc.mem_liveObjects, mem_liveObjects, Gc.Live]
  constructor
  · rintro ⟨root, hm, hroot, pi, hreach, po, hpo, hh, ho⟩
    exact ⟨po, hpo, live_tablesOf.mpr ⟨root, hm, hroot, pi, hreach, hh.symm⟩, ho⟩
  · rintro ⟨po, hpo, hlive, ho⟩
    obtain ⟨root, hm, hroot, pi, hreach, hh⟩ := live_tablesOf.mp hlive
    exact ⟨root, hm, hroot, pi, hreach, po, hpo, hh.symm, ho⟩

theorem staleStorageObjects_eq {cte : LiveObjectsCte}
    (h : pushLiveObjectsCte (tablesOf db) roots = .ok cte) :
    db.staleStorageObjects roots = Database.keysOf
      (db.storageObjects.rows.filter (fun so => so.objectPath ∉ cte.liveObjects)) := by
  have hcte : cte.liveObjects = liveObjects (tablesOf db) roots := by
    rcases le_or_gt roots.length SQLITE_MAX_VARIABLE_NUMBER with hle | hgt
    · rw [pushLiveObjectsCte_ok hle] at h
      cases h
      rfl
    · rw [pushLiveObjectsCte, pushRootValues_error hgt] at h
      cases h
  unfold Database.staleStorageObjects
  congr 1
  refine List.filter_congr (fun so _ => decide_eq_decide.mpr (not_congr ?_))
  rw [mem_liveObjects_iff, hcte]

end

end LivePaths

namespace SqliteDatabase

open Textual Nix Db Depot LivePaths

variable [WildMatch]

def listLiveStorePathHashes : Action (List StorePathHash) := do
  let roots ← listRootStorePathHashes
  let rows ← select (fun db => liveStorePathHashes (tablesOf db) roots)
  ofExcept id rows

def listLiveStorageObjectPaths : Action (List Text) := do
  let roots ← listRootStorePathHashes
  let rows ← select (fun db => liveStorageObjectPaths (tablesOf db) roots)
  ofExcept id rows

end SqliteDatabase

namespace LivePaths

open Textual Nix Calendar Db Depot Programs SqliteDatabase

section

variable [WildMatch] {B : Type} {es : Nat → Env} {w : World}

def ofRoots (query : List StorePathHash → Database → Except Error B) : Action B :=
  listRootStorePathHashes.bind (fun roots => (select (query roots)).bind (ofExcept id))

omit [WildMatch] in
theorem exec_query (query : Database → Except Error B) (es : Nat → Env) (w : World) :
    (machine.exec ((select query).bind (ofExcept id)) es w).2 = query w.db ∨
      (es 0).outcome ≠ .answered ∧
        ∃ x, (machine.exec ((select query).bind (ofExcept id)) es w).2 = .error x := by
  have hexec : (machine.exec ((select query).bind (ofExcept id)) es w).2 =
      match (answer (.select (fun _ db => query db)) (es 0) w).2 with
      | .ok rows => rows
      | .error x => .error x := by
    change (machine.exec (Prog.bind (.done (answer (.select (fun _ db => query db)) (es 0) w).2)
      (ofExcept id)) (fun n => es (n + 1)) _).2 = _
    cases (answer (.select (fun _ db => query db)) (es 0) w).2 with
    | error x => rfl
    | ok rows => cases rows <;> rfl
  rw [hexec]
  cases ho : (es 0).outcome with
  | answered =>
    rw [answer_of_answered ho]
    exact Or.inl rfl
  | refused message =>
    refine Or.inr ⟨by simp, .io message, ?_⟩
    simp [answer, Call.local, ho]
  | lost message =>
    refine Or.inr ⟨by simp, .io message, ?_⟩
    simp [answer, Call.local, ho]

theorem exec_ofRoots (query : List StorePathHash → Database → Except Error B) (es : Nat → Env)
    (w : World) :
    (∀ b, (machine.exec (ofRoots query) es w).2 = .ok b →
      ∃ roots, (machine.exec listRootStorePathHashes es w).2 = .ok roots ∧
        query roots w.db = .ok b) ∧
    ((∀ n, (es n).outcome = .answered) → ∀ roots,
      (machine.exec listRootStorePathHashes es w).2 = .ok roots →
        (machine.exec (ofRoots query) es w).2 = query roots w.db) := by
  have hsame : (machine.exec listRootStorePathHashes es w).1 = w :=
    Machine.exec_of_wp_any (M := machine) es
      (wp_of_uses (fun v => v = w) looks_listRootStorePathHashes.uses
        (fun c e v hc hv => by rw [answer_of_reads hc.reads, hv]) rfl)
  obtain ⟨count, hexec⟩ := Machine.exec_bind (M := machine) listRootStorePathHashes
    (fun roots => (select (query roots)).bind (ofExcept id)) es w
  rw [ofRoots, hexec, hsame]
  cases (machine.exec listRootStorePathHashes es w).2 with
  | error x =>
    constructor
    · rintro b ⟨⟩
    · rintro - roots ⟨⟩
  | ok roots =>
    rcases exec_query (query roots) (fun n => es (n + count)) w with hq | ⟨hfault, x, hx⟩
    · refine ⟨fun b h => ⟨roots, rfl, hq.symm.trans h⟩, ?_⟩
      rintro - _ ⟨⟩
      exact hq
    · refine ⟨fun b h => ?_, fun h => absurd (h _) hfault⟩
      cases hx.symm.trans h

theorem liveness_closure (t : Tables) (roots : List StorePathHash) :
    ((∃ hashes objects cte, FindsClosure t roots hashes objects cte) ↔
      roots.length ≤ SQLITE_MAX_VARIABLE_NUMBER) ∧
    ∀ (es : Nat → Env) (w : World),
      (∀ hashes, (machine.exec listLiveStorePathHashes es w).2 = .ok hashes →
        ∃ roots, (machine.exec listRootStorePathHashes es w).2 = .ok roots ∧
          liveStorePathHashes (tablesOf w.db) roots = .ok hashes) ∧
      (∀ objects, (machine.exec listLiveStorageObjectPaths es w).2 = .ok objects →
        ∃ roots, (machine.exec listRootStorePathHashes es w).2 = .ok roots ∧
          liveStorageObjectPaths (tablesOf w.db) roots = .ok objects) ∧
      ((∀ n, (es n).outcome = .answered) → ∀ roots,
        (machine.exec listRootStorePathHashes es w).2 = .ok roots →
          (machine.exec listLiveStorePathHashes es w).2 =
              liveStorePathHashes (tablesOf w.db) roots ∧
            (machine.exec listLiveStorageObjectPaths es w).2 =
              liveStorageObjectPaths (tablesOf w.db) roots) := by
  refine ⟨finds_closure_iff, fun es w => ?_⟩
  have hhashes := exec_ofRoots (fun roots db => liveStorePathHashes (tablesOf db) roots) es w
  have hobjects := exec_ofRoots (fun roots db => liveStorageObjectPaths (tablesOf db) roots) es w
  exact ⟨hhashes.1, hobjects.1, fun he roots hr => ⟨hhashes.2 he roots hr, hobjects.2 he roots hr⟩⟩

end

end LivePaths

namespace LivePaths

open Textual Nix NixBase32 Calendar Db Depot Depot.Server Programs SqliteDatabase Gc

section Examples

attribute [local instance] standardWildMatch

theorem symbol_mem (d : Nat) : symbol d ∈ nixBase32Alphabet := by
  rw [symbol, List.getD_eq_getElem?_getD]
  cases h : nixBase32Alphabet[d]? with
  | none => decide
  | some c => exact List.mem_of_getElem? h

def pinnedText (n : Nat) : Text :=
  symbol (n / 1024 % 32) :: symbol (n / 32 % 32) :: symbol (n % 32) :: List.replicate 29 '0'

theorem pinnedText_mem {n : Nat} {c : Char} (h : c ∈ pinnedText n) : c ∈ nixBase32Alphabet := by
  simp only [pinnedText, List.mem_cons, List.mem_replicate] at h
  rcases h with rfl | rfl | rfl | ⟨-, rfl⟩
  · exact symbol_mem _
  · exact symbol_mem _
  · exact symbol_mem _
  · decide

theorem utf8Size_symbol (d : Nat) : (symbol d).utf8Size = 1 := by
  have hall : nixBase32Alphabet.all (fun c => decide (c.utf8Size = 1)) = true := by decide
  exact of_decide_eq_true (List.all_eq_true.mp hall _ (symbol_mem d))

def pinnedHash (n : Nat) : StorePathHash where
  text := pinnedText n
  length := by
    have hzero : '0'.utf8Size = 1 := by decide
    simp [pinnedText, utf8Len, utf8Size_symbol, hzero, StorePathHash.LENGTH]
  characters := by
    have hall : nixBase32Alphabet.all isHashCharacter = true := by decide
    refine List.find?_eq_none.mpr (fun q hq => ?_)
    rw [List.all_eq_true.mp hall _ (pinnedText_mem (List.fst_mem_of_mem_zipIdx hq))]
    simp

theorem pinnedText_injective {m n : Nat} (hm : m < 32768) (hn : n < 32768)
    (h : pinnedText m = pinnedText n) : m = n := by
  simp only [pinnedText, List.cons.injEq, and_true] at h
  obtain ⟨hfirst, hsecond, hthird⟩ := h
  have hlt : ∀ k : Nat, k % 32 < 32 := fun k => Nat.mod_lt k (by decide)
  have := symbol_injective (hlt _) (hlt _) hfirst
  have := symbol_injective (hlt _) (hlt _) hsecond
  have := symbol_injective (hlt _) (hlt _) hthird
  omega

def pinnedPath (n : Nat) : Text :=
  "/nix/store/".toList ++ pinnedText n ++ "-pinned".toList

def pinnedRow (n : Nat) : PathInfoRow where
  storePathHash := pinnedHash n
  storePath := pinnedPath n
  url := helloPayload.url
  compression := helloPayload.compression
  narHash := helloPayload.narHash
  narSize := helloPayload.narSize
  deriver := none
  ca := none
  references := []
  signatures := []

theorem pairwise_pinned {R : Type} {f : Nat → R} {related : R → R → Prop} {count : Nat}
    (hcount : count ≤ 32768)
    (h : ∀ m n, pinnedText m ≠ pinnedText n → related (f m) (f n)) :
    ((List.range count).map f).Pairwise related := by
  refine List.pairwise_map.mpr ((List.pairwise_lt_range (n := count)).imp_of_mem ?_)
  intro m n hm hn hlt
  have hm := List.mem_range.mp hm
  have hn := List.mem_range.mp hn
  exact h m n (fun he => hlt.ne (pinnedText_injective (by omega) (by omega) he))

def pinOf (n : Nat) : PinRow := ⟨.global, pinnedText n, none, pinnedHash n, pinnedPath n⟩

theorem pinnedRow_distinct {m n : Nat} (h : pinnedText m ≠ pinnedText n) :
    Tables.Keyed.clash (pinnedRow m) (pinnedRow n) = false := by
  have hhash : pinnedHash m ≠ pinnedHash n := fun he => h (congrArg StorePathHash.text he)
  have hpath : pinnedPath m ≠ pinnedPath n := fun he =>
    h (List.append_cancel_left (List.append_cancel_right he))
  simp [Tables.Keyed.clash, pinnedRow, hhash, hpath]

theorem pinOf_distinct {m n : Nat} (h : pinnedText m ≠ pinnedText n) :
    Tables.Keyed.clash (pinOf m) (pinOf n) = false := by
  simp [Tables.Keyed.clash, pinOf, h]

def pinnedWorld (count : Nat) (h : count ≤ 32768) : World where
  db :=
    { pathInfos := ⟨(List.range count).map pinnedRow,
        pairwise_pinned h (fun _ _ => pinnedRow_distinct)⟩
      pins := ⟨(List.range count).map pinOf, pairwise_pinned h (fun _ _ => pinOf_distinct)⟩ }
  blobs := fun _ _ => none

def pinnedRoots (count : Nat) (h : count ≤ 32768) : List StorePathHash :=
  ((pinnedWorld count h).db.pinnedPaths.insertionSort (· ≤ ·)).dedup

theorem length_pinnedRoots (count : Nat) (h : count ≤ 32768) :
    (pinnedRoots count h).length = count := by
  have hdistinct : (pinnedWorld count h).db.pinnedPaths.Nodup := by
    rw [Database.pinnedPaths, pinnedWorld, List.map_map]
    exact pairwise_pinned h (fun m n hne he => hne (congrArg StorePathHash.text he))
  have hsorted := (List.perm_insertionSort (· ≤ ·) (pinnedWorld count h).db.pinnedPaths)
  rw [pinnedRoots, List.dedup_eq_self.mpr (hsorted.nodup_iff.mpr hdistinct), hsorted.length_eq]
  simp [Database.pinnedPaths, pinnedWorld]

theorem exec_select_bind {A B : Type} (query : Database → A) (f : A → Action B) {e : Env}
    (he : e.outcome = .answered) (w : World) :
    machine.exec ((select query).bind f) (fun _ => e) w =
      machine.exec (f (query w.db)) (fun _ => e) w := by
  change machine.exec (Prog.bind (.done (answer (.select (fun _ db => query db)) e w).2) f)
    (fun _ => e) (answer (.select (fun _ db => query db)) e w).1 = _
  rw [answer_of_answered he]
  rfl

theorem exec_roots_of_pins {e : Env} (he : e.outcome = .answered) {w : World}
    (hrefs : w.db.projectRefsForRetention = []) (hpending : w.db.pendingPaths = []) :
    machine.exec listRootStorePathHashes (fun _ => e) w =
      (w, .ok (w.db.pinnedPaths.insertionSort (· ≤ ·)).dedup) := by
  rw [listRootStorePathHashes, listRetainedBuildIdsForGc, Prog.bind_eq, Prog.bind_eq,
    Prog.bind_assoc, exec_select_bind _ _ he, hrefs]
  change machine.exec ((select Database.pendingPaths).bind (fun pending =>
    (select Database.pinnedPaths).bind (fun pinned =>
      .done (.ok (([] ++ pending ++ pinned).insertionSort (· ≤ ·)).dedup)))) (fun _ => e) w = _
  rw [exec_select_bind _ _ he, exec_select_bind _ _ he, hpending]
  rfl

theorem exec_pinnedRoots (count : Nat) (h : count ≤ 32768) :
    (machine.exec listRootStorePathHashes (fun _ => quietAt (.whole noon))
      (pinnedWorld count h)).2 = .ok (pinnedRoots count h) :=
  congrArg Prod.snd (exec_roots_of_pins rfl rfl rfl)

theorem manyPinned_not_found :
    (machine.exec listRootStorePathHashes (fun _ => quietAt (.whole noon))
      (pinnedWorld 32767 (by decide))).2 = .ok (pinnedRoots 32767 (by decide)) ∧
    (¬ ∃ hashes objects cte, FindsClosure (tablesOf (pinnedWorld 32767 (by decide)).db)
      (pinnedRoots 32767 (by decide)) hashes objects cte) ∧
    ¬ ∃ hashes, (machine.exec listLiveStorePathHashes (fun _ => quietAt (.whole noon))
      (pinnedWorld 32767 (by decide))).2 = .ok hashes := by
  have hlong : ¬ (pinnedRoots 32767 (by decide)).length ≤ SQLITE_MAX_VARIABLE_NUMBER := by
    rw [length_pinnedRoots]
    decide
  refine ⟨exec_pinnedRoots 32767 (by decide), fun h => hlong (finds_closure_iff.mp h), ?_⟩
  rintro ⟨hashes, h⟩
  obtain ⟨roots, hroots, hfound⟩ := (exec_ofRoots
    (fun roots db => liveStorePathHashes (tablesOf db) roots) _ _).1 hashes h
  obtain rfl : pinnedRoots 32767 (by decide) = roots :=
    Except.ok.inj ((exec_pinnedRoots 32767 (by decide)).symm.trans hroots)
  rw [liveStorePathHashes, pushLivePathsCte, pushRootValues_error (Nat.not_le.mp hlong)] at hfound
  cases hfound

end Examples

end LivePaths
