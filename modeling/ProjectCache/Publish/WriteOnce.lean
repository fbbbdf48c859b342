import ProjectCache.Core.Fingerprint
import ProjectCache.Core.Validation
import ProjectCache.Db.PathTables

namespace PathTables

open Textual Nix Tables Depot Narinfo Validation SqliteDatabase
open Signing (bind_eq_ok)

def numbered (h : StorePathHash) : List Text → Nat → List PathValueRow
  | [], _ => []
  | value :: rest, ordinal => ⟨h, value, ordinal⟩ :: numbered h rest (ordinal + 1)

theorem numbered_hash {h : StorePathHash} {vs : List Text} {k : Nat} :
    ∀ r ∈ numbered h vs k, r.storePathHash = h := by
  induction vs generalizing k with
  | nil => simp [numbered]
  | cons v vs ih =>
    intro r hr
    rcases List.mem_cons.mp hr with rfl | hr
    · rfl
    · exact ih r hr

theorem numbered_ordinal_le {h : StorePathHash} {vs : List Text} {k : Nat} :
    ∀ r ∈ numbered h vs k, k ≤ r.ordinal := by
  induction vs generalizing k with
  | nil => simp [numbered]
  | cons v vs ih =>
    intro r hr
    rcases List.mem_cons.mp hr with rfl | hr
    · exact le_rfl
    · exact (Nat.le_succ k).trans (ih r hr)

theorem numbered_sorted {h : StorePathHash} {vs : List Text} {k : Nat} :
    (numbered h vs k).Pairwise (fun a b => a.ordinal ≤ b.ordinal) := by
  induction vs generalizing k with
  | nil => exact List.Pairwise.nil
  | cons v vs ih =>
    refine List.Pairwise.cons (fun r hr => ?_) ih
    exact (Nat.le_succ k).trans (numbered_ordinal_le r hr)

theorem numbered_values {h : StorePathHash} {vs : List Text} {k : Nat} :
    (numbered h vs k).map PathValueRow.value = vs := by
  induction vs generalizing k with
  | nil => rfl
  | cons v vs ih => rw [numbered, List.map_cons, ih]

structure Appends (t t' : PathStore) (infos : List PathInfoLookupRow)
    (values : ListTable → List PathValueRow) : Prop where
  pathInfos : t'.pathInfos.rows = t.pathInfos.rows ++ infos
  lists : ∀ l, (t'.lists l).rows = (t.lists l).rows ++ values l

def only (l : ListTable) (rows : List PathValueRow) : ListTable → List PathValueRow :=
  Function.update (fun _ => []) l rows

theorem Appends.trans {t t' t'' : PathStore} {infos infos' values values'}
    (h : Appends t t' infos values) (h' : Appends t' t'' infos' values') :
    Appends t t'' (infos ++ infos') (fun l => values l ++ values' l) where
  pathInfos := by rw [h'.pathInfos, h.pathInfos, List.append_assoc]
  lists := fun l => by rw [h'.lists, h.lists, List.append_assoc]

theorem insertValue_appends {t t' : PathStore} {l : ListTable} {row : PathValueRow}
    (h : t.insertValue l row = some t') : Appends t t' [] (only l [row]) := by
  unfold PathStore.insertValue at h
  split at h
  · obtain rfl := Option.some.inj h
    refine ⟨(List.append_nil _).symm, fun k => ?_⟩
    by_cases hk : k = l
    · subst hk
      simp [only, Table.add]
    · simp [only, hk]
  · cases h

theorem insertValues_appends {fails : Faults} {l : ListTable} {h : StorePathHash}
    {vs : List Text} {k : Nat} {t t' : PathStore} (hi : insertValues fails l h vs k t = .ok t') :
    Appends t t' [] (only l (numbered h vs k)) := by
  induction vs generalizing k t with
  | nil =>
    obtain rfl := Except.ok.inj hi
    refine ⟨(List.append_nil _).symm, fun m => ?_⟩
    by_cases hm : m = l <;> simp [only, numbered, hm]
  | cons v vs ih =>
    unfold insertValues at hi
    split at hi
    · cases hi
    · obtain ⟨-, -, hi⟩ := bind_eq_ok.mp hi
      cases hv : t.insertValue l ⟨h, v, k⟩ with
      | none => simp [hv] at hi
      | some u =>
        simp only [hv] at hi
        have hu := (insertValue_appends hv).trans (ih hi)
        refine ⟨by simpa using hu.pathInfos, fun m => ?_⟩
        rw [hu.lists m]
        by_cases hm : m = l
        · subst hm
          simp [only, numbered]
        · simp [only, hm]

def listed (h : StorePathHash) (narinfo : NarInfo) : ListTable → List PathValueRow
  | .pathReferences => numbered h narinfo.references 0
  | .pathSignatures => numbered h narinfo.signatures 0

theorem insertPathInfo_some {fails : Faults} {row : PathInfoLookupRow} {n : NarInfo}
    {t t' : PathStore} (h : insertPathInfo fails row n t = .ok (some t')) :
    t.pathInfos.Free row ∧ Appends t t' [row] (listed row.storePathHash n) := by
  unfold insertPathInfo at h
  obtain ⟨-, -, h⟩ := bind_eq_ok.mp h
  obtain ⟨-, -, h⟩ := bind_eq_ok.mp h
  split at h
  · rename_i hf
    obtain ⟨t₁, h₁, h⟩ := bind_eq_ok.mp h
    obtain ⟨t₂, h₂, h⟩ := bind_eq_ok.mp h
    obtain ⟨-, -, h⟩ := bind_eq_ok.mp h
    obtain rfl := Option.some.inj (Except.ok.inj h)
    have hrow : Appends t (t.addInfo row hf) [row] (fun _ => []) :=
      ⟨rfl, fun l => (List.append_nil _).symm⟩
    have ha := (hrow.trans (insertValues_appends h₁)).trans (insertValues_appends h₂)
    refine ⟨hf, by simpa using ha.pathInfos, fun l => ?_⟩
    rw [ha.lists l]
    cases l <;> simp [only, listed]
  · obtain ⟨-, -, h⟩ := bind_eq_ok.mp h
    cases Except.ok.inj h

theorem insertPathInfo_none {fails : Faults} {row : PathInfoLookupRow} {n : NarInfo}
    {t : PathStore} (h : insertPathInfo fails row n t = .ok none) : ¬ t.pathInfos.Free row := by
  unfold insertPathInfo at h
  obtain ⟨-, -, h⟩ := bind_eq_ok.mp h
  obtain ⟨-, -, h⟩ := bind_eq_ok.mp h
  split at h
  · obtain ⟨t₁, -, h⟩ := bind_eq_ok.mp h
    obtain ⟨t₂, -, h⟩ := bind_eq_ok.mp h
    obtain ⟨-, -, h⟩ := bind_eq_ok.mp h
    cases Except.ok.inj h
  · assumption

variable {t t' : PathStore} {h : StorePathHash} {row : PathInfoLookupRow} {n : NarInfo}

theorem pathInfo_eq_some :
    t.pathInfo h = some row ↔ row ∈ t.pathInfos.rows ∧ row.storePathHash = h :=
  (Table.find?_eq_some_iff (fun a b ha hb => by simp_all [Keyed.clash])).trans (by simp)

theorem not_owned_of_free (hf : t.pathInfos.Free row) : ¬ Owned t.pathInfos row.storePathHash := by
  rintro ⟨i, hi, hh⟩
  simpa [Keyed.clash, hh] using hf i hi

theorem listed_hash (l : ListTable) : ∀ r ∈ listed h n l, r.storePathHash = h := by
  cases l <;> exact numbered_hash

theorem listed_sorted (l : ListTable) :
    (listed h n l).Pairwise (fun a b => a.ordinal ≤ b.ordinal) := by
  cases l <;> exact numbered_sorted

section Appended

variable (ha : Appends t t' [row] (listed row.storePathHash n))

include ha in
theorem pathInfo_appended : t'.pathInfo row.storePathHash = some row :=
  pathInfo_eq_some.mpr ⟨by simp [ha.pathInfos], rfl⟩

include ha in
theorem valuesOf_appended (hf : t.pathInfos.Free row) (l : ListTable) :
    t'.valuesOf l row.storePathHash = (listed row.storePathHash n l).map PathValueRow.value := by
  have hold : (t.lists l).rows.filter (fun r => r.storePathHash = row.storePathHash) = [] := by
    refine List.filter_eq_nil_iff.mpr (fun r hr hh => not_owned_of_free hf ?_)
    exact of_decide_eq_true hh ▸ t.owned l r hr
  have hnew : (listed row.storePathHash n l).filter
      (fun r => r.storePathHash = row.storePathHash) = listed row.storePathHash n l :=
    List.filter_eq_self.mpr (fun r hr => decide_eq_true (listed_hash l r hr))
  rw [PathStore.valuesOf, PathStore.valueRows, ha.lists, List.filter_append, hold, hnew,
    List.nil_append, (listed_sorted l).insertionSort_eq]

include ha in
theorem pathInfo_other (hne : row.storePathHash ≠ h) : t'.pathInfo h = t.pathInfo h := by
  rw [PathStore.pathInfo, ha.pathInfos, List.find?_append]
  simp [PathStore.pathInfo, hne]

include ha in
theorem valuesOf_other (hne : row.storePathHash ≠ h) (l : ListTable) :
    t'.valuesOf l h = t.valuesOf l h := by
  have hnew : (listed row.storePathHash n l).filter (fun r => r.storePathHash = h) = [] :=
    List.filter_eq_nil_iff.mpr (fun r hr hh =>
      hne ((listed_hash l r hr).symm.trans (of_decide_eq_true hh)))
  rw [PathStore.valuesOf, PathStore.valueRows, ha.lists, List.filter_append, hnew,
    List.append_nil]
  rfl

end Appended

theorem u64OfI64_toNat (k : UInt64) : u64OfI64 (k.toNat : Int) = .ok k := by
  rw [u64OfI64, if_pos (Int.natCast_nonneg _), Int.toNat_natCast, UInt64.ofNat_toNat]

theorem getPathInfoByHash_eq_ok {fails : Faults} {o : Option NarInfo}
    (hg : getPathInfoByHash fails t h = .ok o) : getPathInfoByHash noFaults t h = .ok o := by
  obtain ⟨-, -, hg⟩ := bind_eq_ok.mp hg
  refine bind_eq_ok.mpr ⟨(), rfl, ?_⟩
  cases hp : t.pathInfo h with
  | none => simpa [hp] using hg
  | some row =>
    simp only [hp] at hg ⊢
    cases hi : inflateNarinfo fails t row with
    | error e => simp [hi] at hg
    | ok m =>
      obtain ⟨-, -, hm⟩ := bind_eq_ok.mp hi
      obtain ⟨-, -, hm⟩ := bind_eq_ok.mp hm
      have hq : inflateNarinfo noFaults t row = .ok m :=
        bind_eq_ok.mpr ⟨(), rfl, bind_eq_ok.mpr ⟨(), rfl, hm⟩⟩
      rw [hq, ← hg, hi]

section Calls

variable [Base64]

theorem rowOfNarinfo_eq_ok : rowOfNarinfo n = .ok row ↔
    ∃ h narHash, StorePathHash.parseFromStorePath n.storePath = .ok h ∧
      n.normalizedNarHash = .ok narHash ∧ n.narSize.toNat < 2 ^ 63 ∧
      lookupRow n h narHash = row := by
  unfold rowOfNarinfo
  cases StorePathHash.parseFromStorePath n.storePath with
  | error e => simp
  | ok h =>
    cases n.normalizedNarHash with
    | error e => simp
    | ok narHash =>
      generalize 2 ^ 63 = bound
      by_cases hs : bound ≤ n.narSize.toNat
      · simp [hs]
      · simp [hs, Nat.lt_of_not_le hs]

inductive Upserted (fails : Faults) (t : PathStore) (n : NarInfo) (row : PathInfoLookupRow) :
    Except Error Unit × PathStore → Prop where
  | failed (e : Error) : Upserted fails t n row (.error e, t)
  | inserted (t' : PathStore) : t.pathInfos.Free row →
      Appends t t' [row] (listed row.storePathHash n) → Upserted fails t n row (.ok (), t')
  | present : ¬ t.pathInfos.Free row →
      Upserted fails t n row (checkExisting fails t row.storePathHash n, t)

theorem upserted (fails : Faults) (t : PathStore) (hr : rowOfNarinfo n = .ok row) :
    Upserted fails t n row (upsertPathInfo fails t n) := by
  unfold upsertPathInfo
  simp only [hr]
  cases hi : insertPathInfo fails row n t with
  | error e => exact .failed e
  | ok o =>
    cases o with
    | none => exact .present (insertPathInfo_none hi)
    | some t' => exact .inserted t' (insertPathInfo_some hi).1 (insertPathInfo_some hi).2

theorem upsertPathInfo_error {fails : Faults} {e : Error}
    (h : (upsertPathInfo fails t n).1 = .error e) : (upsertPathInfo fails t n).2 = t := by
  cases hr : rowOfNarinfo n with
  | error e' => simp [upsertPathInfo, hr]
  | ok row =>
    have hu := upserted fails t hr
    generalize upsertPathInfo fails t n = out at h hu
    cases hu with
    | failed e' => rfl
    | inserted t' hf ha => cases h
    | present hf => rfl

theorem upsertPathInfo_kept {fails : Faults} (ho : Owned t.pathInfos h) :
    (upsertPathInfo fails t n).2.pathInfo h = t.pathInfo h ∧
      ∀ l, (upsertPathInfo fails t n).2.valuesOf l h = t.valuesOf l h := by
  cases hr : rowOfNarinfo n with
  | error e => simp [upsertPathInfo, hr]
  | ok row =>
    have hu := upserted fails t hr
    generalize upsertPathInfo fails t n = out at hu
    cases hu with
    | failed e => exact ⟨rfl, fun _ => rfl⟩
    | inserted t' hf ha =>
      have hne : row.storePathHash ≠ h := fun he => not_owned_of_free hf (he ▸ ho)
      exact ⟨pathInfo_other ha hne, valuesOf_other ha hne⟩
    | present hf => exact ⟨rfl, fun _ => rfl⟩

def recorded (n : NarInfo) (narHash : NormalizedNarHash) : NarInfo :=
  { n with narHash := .raw narHash.display
           ca := n.caNarinfoString.map NixContentAddress.raw }

structure Stores (t : PathStore) (h : StorePathHash) (n : NarInfo) (narHash : NormalizedNarHash) :
    Prop where
  info : t.pathInfo h = some (lookupRow n h narHash)
  lists : ∀ l, t.valuesOf l h = (listed h n l).map PathValueRow.value

theorem Stores.owned {narHash : NormalizedNarHash} (hs : Stores t h n narHash) :
    Owned t.pathInfos h :=
  ⟨_, (pathInfo_eq_some.mp hs.info).1, rfl⟩

theorem Stores.kept {narHash : NormalizedNarHash} {fails : Faults} {m : NarInfo}
    (hs : Stores t h n narHash) : Stores (upsertPathInfo fails t m).2 h n narHash where
  info := (upsertPathInfo_kept hs.owned).1.trans hs.info
  lists := fun l => ((upsertPathInfo_kept hs.owned).2 l).trans (hs.lists l)

theorem Stores.get {narHash : NormalizedNarHash} (hs : Stores t h n narHash) :
    getPathInfoByHash noFaults t h = .ok (some (recorded n narHash)) := by
  have hr : t.valuesOf .pathReferences h = n.references := (hs.lists _).trans numbered_values
  have hg : t.valuesOf .pathSignatures h = n.signatures := (hs.lists _).trans numbered_values
  simp only [getPathInfoByHash, inflateNarinfo, attempt, noFaults, hs.info, lookupRow,
    u64OfI64_toNat, hr, hg, Bool.false_eq_true, if_false]
  rfl

structure StoredAs (m n : NarInfo) : Prop where
  storePath : m.storePath = n.storePath
  url : m.url = n.url
  compression : m.compression = n.compression
  narHash : m.normalizedNarHash = n.normalizedNarHash
  narSize : m.narSize = n.narSize
  references : m.references = n.references
  deriver : m.deriver = n.deriver
  signatures : m.signatures = n.signatures
  ca : m.caNarinfoString = n.caNarinfoString

structure Agrees (m n : NarInfo) : Prop where
  storePath : m.storePath = n.storePath
  url : m.url = n.url
  compression : m.compression = n.compression
  narHash : m.normalizedNarHash = n.normalizedNarHash
  narSize : m.narSize = n.narSize
  references : m.references.Perm n.references
  deriver : m.deriver = n.deriver
  ca : m.caNarinfoString = n.caNarinfoString

theorem recorded_storedAs {narHash : NormalizedNarHash} (hn : n.normalizedNarHash = .ok narHash)
    (hl : narHash.digest.length = 52) : StoredAs (recorded n narHash) n where
  storePath := rfl
  url := rfl
  compression := rfl
  narHash := (NormalizedNarHash.parseText_display hl).trans hn.symm
  narSize := rfl
  references := rfl
  deriver := rfl
  signatures := rfl
  ca := by
    rw [NarInfo.caNarinfoString, recorded, Option.map_map]
    exact Option.map_id'

theorem ensureCompatiblePathInfo_eq_ok {m n : NarInfo} {a b : NormalizedNarHash}
    (hm : m.normalizedNarHash = .ok a) (hn : n.normalizedNarHash = .ok b) :
    ensureCompatiblePathInfo m n = .ok () ↔ Agrees m n := by
  have hr : sortTexts m.references = sortTexts n.references ↔ m.references.Perm n.references :=
    Fingerprint.perm_iff_sortedReferences.symm
  unfold ensureCompatiblePathInfo
  simp only [hm, hn]
  constructor
  · intro h
    split at h
    · rename_i ht
      split at h
      · rename_i hc
        exact ⟨ht.1, ht.2.1, ht.2.2, by rw [hm, hn, hc.1], hc.2.1, hr.mp hc.2.2.1, hc.2.2.2.1,
          hc.2.2.2.2⟩
      · cases h
    · cases h
  · intro h
    have hab : a = b := Except.ok.inj (hm.symm.trans (h.narHash.trans hn))
    rw [if_pos ⟨h.storePath, h.url, h.compression⟩,
      if_pos ⟨hab, h.narSize, hr.mpr h.references, h.deriver, h.ca⟩]

end Calls

end PathTables

namespace WriteOnce

open Textual Nix Tables Depot Narinfo Validation PathTables
open Signing (bind_eq_ok)

structure UpsertCall where
  narinfo : NarInfo
  fails : Faults

section

variable [Base64]

namespace UpsertCall

variable (c : UpsertCall)

def run (t : PathStore) : Except Error Unit × PathStore := upsertPathInfo c.fails t c.narinfo

def IsFor (h : StorePathHash) : Prop :=
  StorePathHash.parseFromStorePath c.narinfo.storePath = .ok h

def Publishable : Prop :=
  (∃ storeDir h, validatePublishNarinfo storeDir c.narinfo = .ok h) ∧
    c.narinfo.narSize.toNat < 2 ^ 63

end UpsertCall

def after (calls : List UpsertCall) : PathStore :=
  calls.foldl (fun t c => (c.run t).2) .empty

theorem after_concat (calls : List UpsertCall) (c : UpsertCall) :
    after (calls ++ [c]) = (c.run (after calls)).2 := by
  simp [after]

def Registered (calls : List UpsertCall) (h : StorePathHash) : Prop :=
  ∃ pre c post, calls = pre ++ c :: post ∧ c.IsFor h ∧ (c.run (after pre)).1 = .ok ()

theorem Registered.concat {calls : List UpsertCall} {h : StorePathHash} (c : UpsertCall)
    (hr : Registered calls h) : Registered (calls ++ [c]) h := by
  obtain ⟨pre, d, post, rfl, hd, ho⟩ := hr
  exact ⟨pre, d, post ++ [c], by simp, hd, ho⟩

def FirstOk (pre : List UpsertCall) (c : UpsertCall) (h : StorePathHash) : Prop :=
  c.IsFor h ∧ (c.run (after pre)).1 = .ok () ∧ ¬ Registered pre h

theorem row_registered (calls : List UpsertCall) : ∀ i ∈ (after calls).pathInfos.rows,
    StorePathHash.parseFromStorePath i.storePath = .ok i.storePathHash ∧
      Registered calls i.storePathHash := by
  induction calls using List.reverseRecOn with
  | nil => simp [after, PathStore.empty]
  | append_singleton calls c ih =>
    have hkept : ∀ i ∈ (after calls).pathInfos.rows,
        StorePathHash.parseFromStorePath i.storePath = .ok i.storePathHash ∧
          Registered (calls ++ [c]) i.storePathHash :=
      fun i hi => ⟨(ih i hi).1, (ih i hi).2.concat c⟩
    rw [after_concat]
    cases hr : rowOfNarinfo c.narinfo with
    | error e =>
      have : (c.run (after calls)).2 = after calls := by simp [UpsertCall.run, upsertPathInfo, hr]
      rwa [this]
    | ok row =>
      have hu := upserted c.fails (after calls) hr
      have hrun : c.run (after calls) = upsertPathInfo c.fails (after calls) c.narinfo := rfl
      rw [← hrun] at hu
      obtain ⟨h, narHash, hp, hn, hs, rfl⟩ := rowOfNarinfo_eq_ok.mp hr
      have hreg : (c.run (after calls)).1 = .ok () → Registered (calls ++ [c]) h :=
        fun ho => ⟨calls, c, [], rfl, hp, ho⟩
      generalize c.run (after calls) = out at hu hreg
      cases hu with
      | failed e => exact hkept
      | inserted t' hf ha =>
        intro i hi
        rw [ha.pathInfos, List.mem_append, List.mem_singleton] at hi
        rcases hi with hi | rfl
        · exact hkept i hi
        · exact ⟨hp, hreg rfl⟩
      | present hf => exact hkept

theorem registered_of_owned {calls : List UpsertCall} {h : StorePathHash}
    (ho : Owned (after calls).pathInfos h) : Registered calls h := by
  obtain ⟨i, hi, rfl⟩ := ho
  exact (row_registered calls i hi).2

theorem owned_of_not_free {calls : List UpsertCall} {n : NarInfo} {h : StorePathHash}
    {narHash : NormalizedNarHash} (hp : StorePathHash.parseFromStorePath n.storePath = .ok h)
    (hf : ¬ (after calls).pathInfos.Free (lookupRow n h narHash)) :
    Owned (after calls).pathInfos h := by
  unfold Table.Free at hf
  push Not at hf
  obtain ⟨i, hi, hc⟩ := hf
  refine ⟨i, hi, ?_⟩
  rcases Bool.or_eq_true_iff.mp (Bool.eq_true_of_not_eq_false hc) with hh | hs
  · exact of_decide_eq_true hh
  · have := (row_registered calls i hi).1
    rw [show i.storePath = n.storePath from of_decide_eq_true hs, hp] at this
    exact (Except.ok.inj this).symm

theorem stores_firstOk {pre : List UpsertCall} {c : UpsertCall} {h : StorePathHash}
    (hc : FirstOk pre c h) : ∃ narHash, c.narinfo.normalizedNarHash = .ok narHash ∧
      Stores (after (pre ++ [c])) h c.narinfo narHash := by
  obtain ⟨hp, hok, hnew⟩ := hc
  rw [after_concat]
  cases hr : rowOfNarinfo c.narinfo with
  | error e => simp [UpsertCall.run, upsertPathInfo, hr] at hok
  | ok row =>
    have hu : Upserted c.fails (after pre) c.narinfo row (c.run (after pre)) := upserted _ _ hr
    obtain ⟨h', narHash, hp', hn, hs, rfl⟩ := rowOfNarinfo_eq_ok.mp hr
    obtain rfl : h = h' := Except.ok.inj (hp.symm.trans hp')
    refine ⟨narHash, hn, ?_⟩
    generalize c.run (after pre) = out at hu hok
    cases hu with
    | failed e => cases hok
    | inserted t' hf ha => exact ⟨pathInfo_appended ha, valuesOf_appended ha hf⟩
    | present hf => exact absurd (registered_of_owned (owned_of_not_free hp hf)) hnew

theorem stores_after {calls : List UpsertCall} {h : StorePathHash} {n : NarInfo}
    {narHash : NormalizedNarHash} (hs : Stores (after calls) h n narHash)
    (more : List UpsertCall) : Stores (after (calls ++ more)) h n narHash := by
  induction more using List.reverseRecOn with
  | nil => rwa [List.append_nil]
  | append_singleton more d ih =>
    rw [← List.append_assoc, after_concat]
    exact ih.kept

section Later

variable {t : PathStore} {h : StorePathHash} {n m : NarInfo} {narHash b : NormalizedNarHash}

theorem checkExisting_eq_ok (hs : Stores t h n narHash) (hl : narHash.digest.length = 52)
    (hm : m.normalizedNarHash = .ok b) :
    checkExisting noFaults t h m = .ok () ↔ Agrees (recorded n narHash) m := by
  have hr : (recorded n narHash).normalizedNarHash = .ok narHash :=
    NormalizedNarHash.parseText_display hl
  rw [← ensureCompatiblePathInfo_eq_ok hr hm, checkExisting, hs.get]
  rfl

theorem checkExisting_of_ok {fails : Faults} (hc : checkExisting fails t h m = .ok ()) :
    checkExisting noFaults t h m = .ok () := by
  obtain ⟨o, hg, ho⟩ := bind_eq_ok.mp hc
  exact bind_eq_ok.mpr ⟨o, getPathInfoByHash_eq_ok hg, ho⟩

variable {c : UpsertCall} (hs : Stores t h n narHash) (hc : c.IsFor h)

include hs hc in
theorem run_later (hb : c.narinfo.normalizedNarHash = .ok b)
    (hz : c.narinfo.narSize.toNat < 2 ^ 63) :
    ((∃ e, c.run t = (.error e, t)) ∨ c.run t = (checkExisting c.fails t h c.narinfo, t)) ∧
    (c.fails = noFaults → c.run t = (checkExisting noFaults t h c.narinfo, t)) := by
  have hr : rowOfNarinfo c.narinfo = .ok (lookupRow c.narinfo h b) :=
    rowOfNarinfo_eq_ok.mpr ⟨h, b, hc, hb, hz, rfl⟩
  have hf : ¬ t.pathInfos.Free (lookupRow c.narinfo h b) :=
    fun hf => not_owned_of_free hf hs.owned
  constructor
  · have hu : Upserted c.fails t c.narinfo _ (c.run t) := upserted _ _ hr
    generalize c.run t = out at hu ⊢
    cases hu with
    | failed e => exact Or.inl ⟨e, rfl⟩
    | inserted t' hf' ha => exact absurd hf' hf
    | present hf => exact Or.inr rfl
  · intro hn
    have hi : insertPathInfo noFaults (lookupRow c.narinfo h b) c.narinfo t = .ok none := by
      simp only [insertPathInfo, attempt, noFaults, Bool.false_eq_true, if_false, dif_neg hf]
      rfl
    simp only [UpsertCall.run, upsertPathInfo, hr, hn, hi]
    rfl

include hs hc in
theorem later_call (hl : narHash.digest.length = 52) (hp : c.Publishable) :
    (c.run t).2 = t ∧ ((c.run t).1 = .ok () → Agrees (recorded n narHash) c.narinfo) ∧
      (c.fails = noFaults → Agrees (recorded n narHash) c.narinfo → (c.run t).1 = .ok ()) := by
  obtain ⟨⟨s, h', hv⟩, hz⟩ := hp
  obtain ⟨-, -, b, hb, -, -⟩ := (validatePublishNarinfo_ok hv).compression
  obtain ⟨hfaulty, hclean⟩ := run_later hs hc hb hz
  have hagree := checkExisting_eq_ok hs hl hb
  refine ⟨?_, fun hok => ?_, fun hn ha => ?_⟩
  · rcases hfaulty with ⟨e, he⟩ | he <;> rw [he]
  · rcases hfaulty with ⟨e, he⟩ | he
    · rw [he] at hok
      cases hok
    · rw [he] at hok
      exact hagree.mp (checkExisting_of_ok hok)
  · rw [hclean hn]
    exact hagree.mpr ha

end Later

theorem path_infos_write_once {calls : List UpsertCall} (hp : ∀ c ∈ calls, c.Publishable)
    (h : StorePathHash) :
    (∀ pre c post, calls = pre ++ c :: post → FirstOk pre c h →
      ∃ m, StoredAs m c.narinfo ∧
        (∀ more, more <+: post →
          getPathInfoByHash noFaults (after (pre ++ c :: more)) h = .ok (some m)) ∧
        ∀ more d rest, post = more ++ d :: rest → d.IsFor h →
          let t := after (pre ++ c :: more)
          (d.run t).2 = t ∧ ((d.run t).1 = .ok () → Agrees m d.narinfo) ∧
            (d.fails = noFaults → Agrees m d.narinfo → (d.run t).1 = .ok ())) ∧
    ∀ pre c post, calls = pre ++ c :: post → (c.run (after pre)).1 ≠ .ok () →
      (c.run (after pre)).2 = after pre := by
  refine ⟨?_, fun pre c post _ hne => ?_⟩
  · rintro pre c post rfl hc
    obtain ⟨narHash, hn, hs⟩ := stores_firstOk hc
    have hl : narHash.digest.length = 52 := by
      obtain ⟨⟨s, h', hv⟩, -⟩ := hp c (by simp)
      obtain ⟨-, -, b, hb, hl, -⟩ := (validatePublishNarinfo_ok hv).compression
      rwa [Except.ok.inj (hn.symm.trans hb)]
    have hstored : ∀ more, Stores (after (pre ++ c :: more)) h c.narinfo narHash := fun more => by
      simpa using stores_after hs more
    refine ⟨recorded c.narinfo narHash, recorded_storedAs hn hl, fun more _ => (hstored more).get,
      ?_⟩
    rintro more d rest rfl hd
    exact later_call (hstored more) hd hl (hp d (by simp))
  · cases hr : (c.run (after pre)).1 with
    | ok u => exact absurd hr hne
    | error e => exact upsertPathInfo_error hr

end

section

open Fingerprint RoundTrip

attribute [local instance] standardBase64

def helloCalls : List UpsertCall :=
  [⟨helloReferring [glibc, gcc], noFaults⟩,
    ⟨{ helloReferring [gcc, glibc] with signatures := ["example:AAAA".toList] }, noFaults⟩]

theorem hello_write_once : ∃ m, StoredAs m (helloReferring [glibc, gcc]) ∧
    getPathInfoByHash noFaults (after helloCalls) helloHash = .ok (some m) := by
  have hp : ∀ c ∈ helloCalls, c.Publishable := by
    intro c hc
    have hh : validatePublishNarinfo .defaultNix c.narinfo = .ok helloHash := by
      rcases List.mem_pair.mp hc with rfl | rfl <;> decide
    refine ⟨⟨_, _, hh⟩, ?_⟩
    rcases List.mem_pair.mp hc with rfl | rfl <;> decide
  have hfirst : FirstOk [] ⟨helloReferring [glibc, gcc], noFaults⟩ helloHash := by
    refine ⟨by unfold UpsertCall.IsFor; decide, by decide +kernel, ?_⟩
    rintro ⟨pre, c, post, h, -⟩
    cases pre <;> cases h
  obtain ⟨m, hm, hget, -⟩ := (path_infos_write_once hp helloHash).1 [] _ _ rfl hfirst
  exact ⟨m, hm, hget _ (List.prefix_refl _)⟩

end

end WriteOnce
