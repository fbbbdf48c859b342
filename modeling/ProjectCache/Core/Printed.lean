import Mathlib.Data.List.Find
import ProjectCache.Core.LineOrder
import ProjectCache.Core.RoundTrip
import ProjectCache.Lib.Lines

namespace Printed

open Textual Nix Narinfo Signing LineOrder RoundTrip

def fieldOf (l : Text) : Option Text := fieldNames.find? (fun name => startsWith name l)

def requiredNames : List Text :=
  ["StorePath: ", "URL: ", "Compression: ", "NarHash: ", "NarSize: ", "References:"].map
    String.toList

structure Harmless (n : NarInfo) (added : List Text) : Prop where
  legible : ∀ l ∈ added, l = [] ∨ ':' ∈ l
  required : ∀ l ∈ added, ∀ name ∈ requiredNames, fieldOf l ≠ some name
  deriver : n.deriver.toList.length +
    added.countP (fun l => fieldOf l = some "Deriver: ".toList) ≤ 1
  ca : n.ca.toList.length + added.countP (fun l => fieldOf l = some "CA: ".toList) ≤ 1

theorem names_apart : ∀ a ∈ fieldNames, ∀ b ∈ fieldNames, a <+: b → a = b := by decide

theorem singleLine_name {name : Text} (h : name ∈ fieldNames) : SingleLine name :=
  singleLine_literal name h

theorem stripPrefix_other {a b : Text} (ha : a ∈ fieldNames) (hb : b ∈ fieldNames) (hne : a ≠ b)
    (v : Text) : stripPrefix a (b ++ v) = none := by
  rw [Option.eq_none_iff_forall_ne_some]
  intro r hr
  have hpre : a <+: b ++ v := ⟨r, (stripPrefix_eq_some.mp hr).symm⟩
  rcases List.prefix_or_prefix_of_prefix hpre (List.prefix_append b v) with h | h
  · exact hne (names_apart a ha b hb h)
  · exact hne (names_apart b hb a ha h).symm

theorem fieldOf_eq_some {name l : Text} (hn : name ∈ fieldNames) :
    fieldOf l = some name ↔ ∃ v, stripPrefix name l = some v := by
  constructor
  · intro h
    have hs := List.find?_some h
    exact Option.isSome_iff_exists.mp hs
  · rintro ⟨v, hv⟩
    obtain rfl := stripPrefix_eq_some.mp hv
    have hsome : (fieldOf (name ++ v)).isSome = true :=
      List.find?_isSome.mpr ⟨name, hn, by simp [startsWith, hv]⟩
    obtain ⟨other, hother⟩ := Option.isSome_iff_exists.mp hsome
    have hstarts : startsWith other (name ++ v) = true :=
      @List.find?_some _ (fun name' => startsWith name' (name ++ v)) _ _ hother
    obtain ⟨w, hw⟩ := Option.isSome_iff_exists.mp hstarts
    by_cases he : other = name
    · rw [hother, he]
    · rw [stripPrefix_other (List.mem_of_find?_eq_some hother) hn he] at hw
      cases hw

theorem colon_late : ∀ name ∈ fieldNames, ∀ q ∈ name.tails, q.head? = some ':' →
    q = [':'] ∨ q = [':', ' '] := by decide

theorem startsWith_colon {name : Text} (hn : name ∈ fieldNames) (last : Text) {rest : Text}
    (hr : rest.head? ≠ some ' ') :
    startsWith name (last ++ ':' :: rest) = startsWith name (last ++ [':']) := by
  have hshort : last ++ [':'] <+: last ++ ':' :: rest := ⟨rest, by simp⟩
  rw [Bool.eq_iff_iff, startsWith_iff, startsWith_iff]
  refine ⟨fun h => ?_, fun h => h.trans hshort⟩
  rcases List.prefix_or_prefix_of_prefix h hshort with hle | ⟨r, hle⟩
  · exact hle
  · have htail : ':' :: r ∈ name.tails := (List.mem_tails _ _).mpr ⟨last, by rw [← hle]; simp⟩
    rcases colon_late name hn _ htail rfl with hq | hq
    · obtain rfl : r = [] := (List.cons.inj hq).2
      rw [← hle, List.append_nil]
    · obtain rfl : r = [' '] := (List.cons.inj hq).2
      rw [← hle, List.append_assoc, List.prefix_append_right_inj, List.singleton_append,
        List.cons_prefix_cons] at h
      obtain ⟨-, t, ht⟩ := h
      exact absurd (by rw [← ht]; rfl) hr

def mark (l : Text) : Bool × Option Text := (decide (l = [] ∨ ':' ∈ l), fieldOf l)

theorem harmless_iff_marks {n : NarInfo} {added : List Text} : Harmless n added ↔
    (∀ m ∈ added.map mark, m.1 = true) ∧
    (∀ m ∈ added.map mark, ∀ name ∈ requiredNames, m.2 ≠ some name) ∧
    n.deriver.toList.length +
      (added.map mark).countP (fun m => m.2 = some "Deriver: ".toList) ≤ 1 ∧
    n.ca.toList.length + (added.map mark).countP (fun m => m.2 = some "CA: ".toList) ≤ 1 := by
  simp only [List.forall_mem_map, List.countP_map, mark, decide_eq_true_eq]
  exact ⟨fun h => ⟨h.legible, h.required, h.deriver, h.ca⟩,
    fun h => ⟨h.1, h.2.1, h.2.2.1, h.2.2.2⟩⟩

theorem harmless_congr {n : NarInfo} {added added' : List Text}
    (h : (added.map mark).Perm (added'.map mark)) : Harmless n added ↔ Harmless n added' := by
  simp only [harmless_iff_marks, h.mem_iff, h.countP_eq]

theorem mark_colon (last : Text) {rest : Text} (hr : rest.head? ≠ some ' ') :
    mark (last ++ ':' :: rest) = mark (last ++ [':']) := by
  have hfield : fieldOf (last ++ ':' :: rest) = fieldOf (last ++ [':']) := by
    refine List.find?_congr (fun name hn => ?_)
    exact startsWith_colon hn last hr
  simp [mark, hfield]

theorem marks_addedLines (name : Text) {rest : Text} (hs : SingleLine (':' :: rest))
    (hr : rest.head? ≠ some ' ') :
    (addedLines (name ++ ':' :: rest)).map mark = (addedLines (name ++ [':'])).map mark := by
  have hcolon : SingleLine [':'] := by
    unfold SingleLine
    decide
  rcases addedLines_append_last name with h | ⟨early, last, h⟩
  · rw [h _ hs, h _ hcolon]
  · rw [h _ hs (by simp), h _ hcolon (by simp), List.map_append, List.map_append,
      List.map_singleton, List.map_singleton, mark_colon last hr]

theorem storePath_line {s : StoreDir} {input : Text} {n : NarInfo}
    (h : parseNarinfo input s = .ok n) : "StorePath: ".toList ++ n.storePath ∈ lines input := by
  obtain ⟨f, hf, hsp, -⟩ := parseNarinfo_ok h
  have hfills := (parseLines_iff.mp hf).storePath
  rw [hsp, Fills] at hfills
  have hmem :
      n.storePath ∈ ((lines input).filterMap (stripPrefix "StorePath: ".toList)).map id := by
    rw [← List.nil_append (List.map _ _)]
    exact hfills ▸ List.mem_singleton_self _
  rw [List.map_id, List.mem_filterMap] at hmem
  obtain ⟨l, hl, hv⟩ := hmem
  exact stripPrefix_eq_some.mp hv ▸ hl

theorem afterLast_concat {c d : Char} (h : d ≠ c) (v : Text) :
    afterLast c (v ++ [d]) = afterLast c v ++ [d] := by
  rw [afterLast, List.reverse_append, List.reverse_singleton, List.singleton_append,
    List.takeWhile_cons_of_pos (by simpa using h), List.reverse_cons]
  rfl

theorem parseFromStorePath_concat (v : Text) (h : StorePathHash) :
    StorePathHash.parseFromStorePath (v ++ ['\r']) = .ok h ↔
      StorePathHash.parseFromStorePath v = .ok h := by
  rw [StorePathHash.parseFromStorePath_eq_ok, StorePathHash.parseFromStorePath_eq_ok,
    afterLast_concat (by decide)]
  constructor
  · rintro ⟨name, hname⟩
    obtain ⟨heq, hnot⟩ := splitOnce_eq_some.mp hname
    rcases List.eq_nil_or_concat name with rfl | ⟨name, c, rfl⟩
    · have hc := (List.append_inj' heq rfl).2
      simp at hc
    · have hv : afterLast '/' v = h.text ++ '-' :: name := by
        have heq' : afterLast '/' v ++ ['\r'] = (h.text ++ '-' :: name) ++ [c] := by simpa using heq
        exact (List.append_inj' heq' rfl).1
      exact ⟨name, splitOnce_eq_some.mpr ⟨hv, hnot⟩⟩
  · rintro ⟨name, hname⟩
    obtain ⟨heq, hnot⟩ := splitOnce_eq_some.mp hname
    exact ⟨name ++ ['\r'], splitOnce_eq_some.mpr ⟨by rw [heq]; simp, hnot⟩⟩

theorem parseFromStorePath_stripCr (v : Text) (h : StorePathHash) :
    StorePathHash.parseFromStorePath (stripCr v) = .ok h ↔
      StorePathHash.parseFromStorePath v = .ok h := by
  by_cases hv : ∃ t, v = t ++ ['\r']
  · obtain ⟨t, rfl⟩ := hv
    rw [stripCr_append_cr, parseFromStorePath_concat]
  · rw [stripCr_eq_self (by simpa using hv)]

theorem parse_firstPiece {s : StoreDir} {input : Text} {n : NarInfo}
    (h : parseNarinfo input s = .ok n) (hash : StorePathHash) :
    StorePathHash.parseFromStorePath (firstPiece n.storePath) = .ok hash ↔
      StorePathHash.parseFromStorePath n.storePath = .ok hash := by
  have hline := not_mem_lines (storePath_line h)
  rw [List.mem_append, not_or] at hline
  have hwhole : n.storePath.takeWhile (· ≠ '\n') = n.storePath := by
    rw [List.takeWhile_eq_self_iff]
    intro c hc
    simpa using fun e : c = '\n' => hline.2 (e ▸ hc)
  rw [firstPiece, hwhole, parseFromStorePath_stripCr]

section

variable {fields : List (Text × Text)} {name : Text}

def parsedLines (fields : List (Text × Text)) : List Text :=
  fields.flatMap (fun f => (f.1 ++ firstPiece f.2) :: addedLines f.2)

def added (fields : List (Text × Text)) : List Text := fields.flatMap (fun f => addedLines f.2)

def Named (fields : List (Text × Text)) : Prop := ∀ f ∈ fields, f.1 ∈ fieldNames

theorem lines_fields (h : Named fields) :
    lines (unlines (fields.map (fun f => f.1 ++ f.2))) = parsedLines fields := by
  rw [lines_unlines, List.flatMap_map, parsedLines]
  exact List.flatMap_congr (fun f hf => pieces_append (singleLine_name (h f hf)) f.2)

def valuesOf (name : Text) (ls : List Text) : List Text := ls.filterMap (stripPrefix name)

def written (name : Text) (fields : List (Text × Text)) : List Text :=
  (fields.filter (fun f => f.1 = name)).map (fun f => firstPiece f.2)

theorem valuesOf_parsedLines (h : Named fields) (hn : name ∈ fieldNames) :
    (valuesOf name (parsedLines fields)).Perm
      (written name fields ++ valuesOf name (added fields)) := by
  induction fields with
  | nil => exact .refl _
  | cons f rest ih =>
    have hrest := ih (fun g hg => h g (by simp [hg]))
    have hmiddle : (valuesOf name (addedLines f.2) ++ valuesOf name (parsedLines rest)).Perm
        (written name rest ++ valuesOf name (added (f :: rest))) := by
      rw [added, List.flatMap_cons, valuesOf, valuesOf, valuesOf, List.filterMap_append,
        ← List.append_assoc]
      exact ((List.Perm.append_left _ hrest).trans (by
        rw [← List.append_assoc]
        exact List.Perm.append_right _ List.perm_append_comm))
    rw [parsedLines, List.flatMap_cons, List.cons_append, valuesOf, written]
    by_cases hf : f.1 = name
    · rw [hf, List.filterMap_cons_some (stripPrefix_append name _), List.filterMap_append,
        List.filter_cons_of_pos (by simpa using hf), List.map_cons]
      exact hmiddle.cons _
    · rw [List.filterMap_cons_none (stripPrefix_other hn (h f (by simp)) (Ne.symm hf) _),
        List.filterMap_append, List.filter_cons_of_neg (by simpa using hf)]
      exact hmiddle

end

theorem filter_other {A : Type} {p name : Text} (h : p ≠ name) (xs : List A) (g : A → Text) :
    (xs.map (fun x => (p, g x))).filter (fun f => f.1 = name) = [] := by
  rw [List.filter_eq_nil_iff]
  rintro f hf
  obtain ⟨x, -, rfl⟩ := List.mem_map.mp hf
  simpa using h

theorem filter_own {A : Type} (name : Text) (xs : List A) (g : A → Text) :
    (xs.map (fun x => (name, g x))).filter (fun f => f.1 = name) =
      xs.map (fun x => (name, g x)) := by
  rw [List.filter_eq_self]
  rintro f hf
  obtain ⟨x, -, rfl⟩ := List.mem_map.mp hf
  simp

theorem required_apart : ∀ name ∈ requiredNames, "Deriver: ".toList ≠ name ∧
    "Sig: ".toList ≠ name ∧ "CA: ".toList ≠ name := by decide

theorem required_named : ∀ name ∈ requiredNames, name ∈ fieldNames := by decide

theorem countP_fieldOf {name : Text} (hn : name ∈ fieldNames) (ls : List Text) :
    ls.countP (fun l => fieldOf l = some name) = (valuesOf name ls).length := by
  rw [valuesOf, List.length_filterMap_eq_countP]
  apply List.countP_congr
  intro l _
  rw [decide_eq_true_eq, fieldOf_eq_some hn, Option.isSome_iff_exists]

theorem valuesOf_length_le {T : Type} {name : Text} {read : Text → T} {ls : List Text}
    {after : List T}
    (h : Fills name read [] ls after) (ha : after.length ≤ 1) :
    (valuesOf name ls).length ≤ 1 := by
  rw [h, List.nil_append, List.length_map] at ha
  exact ha

theorem valuesOf_le_one {s : StoreDir} {ls : List Text} {f : Slots} (h : Filled s {} ls f) :
    ∀ name, name ∈ requiredNames ∨ name = "Deriver: ".toList ∨ name = "CA: ".toList →
      (valuesOf name ls).length ≤ 1 := by
  have hone {T : Type} (x : Option T) : x.toList.length ≤ 1 := by cases x <;> simp
  have hsize : (f.narSize.toList.map some).length ≤ 1 := by
    rw [List.length_map]
    exact hone _
  intro name hname
  simp only [requiredNames, List.map_cons, List.map_nil, List.mem_cons, List.not_mem_nil,
    or_false] at hname
  rcases hname with (rfl | rfl | rfl | rfl | rfl | rfl) | rfl | rfl
  · exact valuesOf_length_le h.storePath (hone _)
  · exact valuesOf_length_le h.url (hone _)
  · exact valuesOf_length_le h.compression (hone _)
  · exact valuesOf_length_le h.narHash (hone _)
  · exact valuesOf_length_le h.narSize hsize
  · exact valuesOf_length_le h.references (hone _)
  · exact valuesOf_length_le h.deriver (hone _)
  · exact valuesOf_length_le h.ca (hone _)

theorem mem_parsedLines_of_added {fields : List (Text × Text)} {l : Text} (h : l ∈ added fields) :
    l ∈ parsedLines fields := by
  obtain ⟨f, hf, hl⟩ := List.mem_flatMap.mp h
  exact List.mem_flatMap.mpr ⟨f, hf, List.mem_cons_of_mem _ hl⟩

theorem colon_in_name : ∀ name ∈ fieldNames, ':' ∈ name := by decide

theorem fills_value {T : Type} {name : Text} {read : Text → T} {ls : List Text} {v : Text}
    (h : valuesOf name ls = [v]) : Fills name read [] ls [read v] := by
  rw [Fills, List.nil_append]
  exact (congrArg (List.map read) h).symm

theorem toList_head? {T : Type} {xs : List T} (h : xs.length ≤ 1) : xs.head?.toList = xs := by
  match xs with
  | [] => rfl
  | [x] => rfl
  | _ :: _ :: _ => simp at h

section

variable [Base64] {s : StoreDir} {n m : NarInfo} {narHash : NormalizedNarHash}
  {signatures : List Text}

def requiredFields (s : StoreDir) (n : NarInfo) (narHash : NormalizedNarHash) :
    List (Text × Text) :=
  [("StorePath: ".toList, n.storePath), ("URL: ".toList, n.url),
    ("Compression: ".toList, n.compression), ("NarHash: ".toList, narHash.display),
    ("NarSize: ".toList, decimal n.narSize.toNat),
    ("References:".toList, referencesValue s n.sortedReferences)]

def printedFields (s : StoreDir) (n : NarInfo) (narHash : NormalizedNarHash)
    (signatures : List Text) : List (Text × Text) :=
  requiredFields s n narHash ++
    (n.deriver.toList.map (fun d => ("Deriver: ".toList, s.displayPath d)) ++
      ((sortTexts signatures).map (fun x => ("Sig: ".toList, x)) ++
        n.caNarinfoString.toList.map (fun c => ("CA: ".toList, c))))

theorem renderedLines_fields : (NarInfoRenderer.mk s).renderedLines n narHash signatures =
    (printedFields s n narHash signatures).map (fun f => f.1 ++ f.2) := by
  simp only [renderedLines_eq, printedFields, laterLines, List.map_append, List.map_map]
  rfl

theorem named_printedFields : Named (printedFields s n narHash signatures) := by
  intro f hf
  simp only [printedFields, requiredFields, List.mem_append, List.mem_cons, List.not_mem_nil,
    or_false, List.mem_map] at hf
  rcases hf with (rfl | rfl | rfl | rfl | rfl | rfl) | ⟨d, -, rfl⟩ | ⟨x, -, rfl⟩ | ⟨c, -, rfl⟩
  · exact List.mem_cons_self
  all_goals simp [fieldNames]

theorem written_required {f : Text × Text} (hf : f ∈ requiredFields s n narHash) :
    written f.1 (printedFields s n narHash signatures) = [firstPiece f.2] := by
  have hname : f.1 ∈ requiredNames :=
    List.mem_map_of_mem (f := Prod.fst) hf
  obtain ⟨hd, hs, hc⟩ := required_apart f.1 hname
  have hown : (requiredFields s n narHash).filter (fun g => g.1 = f.1) = [f] := by
    simp only [requiredFields, List.mem_cons, List.not_mem_nil, or_false] at hf
    rcases hf with rfl | rfl | rfl | rfl | rfl | rfl <;> rfl
  rw [written, printedFields, List.filter_append, List.filter_append, List.filter_append, hown,
    filter_other hd, filter_other hs, filter_other hc]
  rfl

theorem written_deriver : written "Deriver: ".toList (printedFields s n narHash signatures) =
    n.deriver.toList.map (fun d => firstPiece (s.displayPath d)) := by
  have hnone : (requiredFields s n narHash).filter (fun g => g.1 = "Deriver: ".toList) = [] := rfl
  rw [written, printedFields, List.filter_append, List.filter_append, List.filter_append, hnone,
    filter_own, filter_other (by decide), filter_other (by decide), List.nil_append,
    List.nil_append, List.append_nil, List.map_map]
  rfl

theorem written_ca : written "CA: ".toList (printedFields s n narHash signatures) =
    n.caNarinfoString.toList.map firstPiece := by
  have hnone : (requiredFields s n narHash).filter (fun g => g.1 = "CA: ".toList) = [] := rfl
  rw [written, printedFields, List.filter_append, List.filter_append, List.filter_append, hnone,
    filter_own, filter_other (by decide), filter_other (by decide), List.nil_append,
    List.nil_append, List.nil_append, List.map_map]
  rfl

theorem length_valuesOf {name : Text} (hn : name ∈ fieldNames) :
    (valuesOf name (parsedLines (printedFields s n narHash signatures))).length =
      (written name (printedFields s n narHash signatures)).length +
        (valuesOf name (added (printedFields s n narHash signatures))).length := by
  rw [(valuesOf_parsedLines named_printedFields hn).length_eq, List.length_append]

theorem harmless_of_filled {f : Slots}
    (h : Filled s {} (parsedLines (printedFields s n narHash signatures)) f) :
    Harmless n (added (printedFields s n narHash signatures)) where
  legible := fun l hl => h.known l (mem_parsedLines_of_added hl)
  required := by
    intro l hl name hname hfield
    obtain ⟨v, hv⟩ := (fieldOf_eq_some (required_named name hname)).mp hfield
    have hmem : v ∈ valuesOf name (added (printedFields s n narHash signatures)) :=
      List.mem_filterMap.mpr ⟨l, hl, hv⟩
    have hfields : name ∈ (requiredFields s n narHash).map Prod.fst := hname
    obtain ⟨f, hf, rfl⟩ := List.mem_map.mp hfields
    have hle := valuesOf_le_one h f.1 (.inl hname)
    rw [length_valuesOf (required_named _ hname), written_required hf] at hle
    have hpos := List.length_pos_of_mem hmem
    simp only [List.length_singleton] at hle
    omega
  deriver := by
    have hle := valuesOf_le_one h "Deriver: ".toList (.inr (.inl rfl))
    rw [length_valuesOf (by simp [fieldNames]), written_deriver, List.length_map] at hle
    rwa [countP_fieldOf (by simp [fieldNames])]
  ca := by
    have hle := valuesOf_le_one h "CA: ".toList (.inr (.inr rfl))
    rw [length_valuesOf (by simp [fieldNames]), written_ca, List.length_map] at hle
    rw [countP_fieldOf (by simp [fieldNames])]
    cases hc : n.ca <;> simpa [NarInfo.caNarinfoString, hc] using hle

theorem valuesOf_required (h : Harmless n (added (printedFields s n narHash signatures)))
    {f : Text × Text} (hf : f ∈ requiredFields s n narHash) :
    valuesOf f.1 (parsedLines (printedFields s n narHash signatures)) = [firstPiece f.2] := by
  have hname : f.1 ∈ requiredNames := List.mem_map_of_mem (f := Prod.fst) hf
  have hnone : valuesOf f.1 (added (printedFields s n narHash signatures)) = [] := by
    rw [valuesOf, List.filterMap_eq_nil_iff]
    intro l hl
    rw [Option.eq_none_iff_forall_ne_some]
    intro v hv
    exact h.required l hl f.1 hname ((fieldOf_eq_some (required_named _ hname)).mpr ⟨v, hv⟩)
  have hnamed : Named (printedFields s n narHash signatures) := named_printedFields
  have hperm := valuesOf_parsedLines hnamed (required_named _ hname)
  rw [hnone, List.append_nil, written_required hf] at hperm
  exact List.perm_singleton.mp hperm

theorem known_parsedLines (h : Harmless n (added (printedFields s n narHash signatures))) :
    ∀ l ∈ parsedLines (printedFields s n narHash signatures), l = [] ∨ ':' ∈ l := by
  intro l hl
  obtain ⟨f, hf, hl⟩ := List.mem_flatMap.mp hl
  rcases List.mem_cons.mp hl with rfl | hl
  · exact .inr (List.mem_append_left _ (colon_in_name f.1 (named_printedFields f hf)))
  · exact h.legible l (List.mem_flatMap.mpr ⟨f, hf, hl⟩)

def parsedSlots (s : StoreDir) (n : NarInfo) (narHash : NormalizedNarHash) (ls : List Text) :
    Slots where
  storePath := some (firstPiece n.storePath)
  url := some (firstPiece n.url)
  compression := some (firstPiece n.compression)
  narHash := some (.raw (firstPiece narHash.display))
  narSize := some n.narSize
  references := some (parseReferences s (firstPiece (referencesValue s n.sortedReferences)))
  deriver := ((valuesOf "Deriver: ".toList ls).map s.expandDisplayPath).head?
  signatures := valuesOf "Sig: ".toList ls
  ca := ((valuesOf "CA: ".toList ls).map .raw).head?

theorem filled_of_harmless (h : Harmless n (added (printedFields s n narHash signatures))) :
    Filled s {} (parsedLines (printedFields s n narHash signatures))
      (parsedSlots s n narHash (parsedLines (printedFields s n narHash signatures))) := by
  have hderiver : (valuesOf "Deriver: ".toList
      (parsedLines (printedFields s n narHash signatures))).length ≤ 1 := by
    have hd := h.deriver
    rw [countP_fieldOf (by simp [fieldNames])] at hd
    rwa [length_valuesOf (by simp [fieldNames]), written_deriver, List.length_map]
  have hca : (valuesOf "CA: ".toList
      (parsedLines (printedFields s n narHash signatures))).length ≤ 1 := by
    have hc := h.ca
    rw [countP_fieldOf (by simp [fieldNames])] at hc
    rw [length_valuesOf (by simp [fieldNames]), written_ca, List.length_map]
    cases hn : n.ca <;> simpa [NarInfo.caNarinfoString, hn] using hc
  have hone (f : Text × Text) (hf : f ∈ requiredFields s n narHash) :=
    valuesOf_required h hf
  simp only [requiredFields, List.mem_cons, List.not_mem_nil, or_false, forall_eq_or_imp,
    forall_eq] at hone
  obtain ⟨h1, h2, h3, h4, h5, h6⟩ := hone
  constructor
  case known => exact known_parsedLines h
  case storePath => exact fills_value h1
  case url => exact fills_value h2
  case compression => exact fills_value h3
  case narHash => exact fills_value h4
  case narSize =>
    rw [firstPiece_singleLine (singleLine_decimal _)] at h5
    have hv : Fills "NarSize: ".toList parseU64 [] _ [parseU64 (decimal n.narSize.toNat)] :=
      fills_value h5
    rwa [parseU64_decimal] at hv
  case references => exact fills_value h6
  case deriver => exact toList_head? (by rw [List.length_map]; exact hderiver)
  case signatures => exact (List.map_id _).symm
  case ca => exact toList_head? (by rw [List.length_map]; exact hca)

theorem parse_printed_iff : (∃ m, parseNarinfo
      (unlines ((NarInfoRenderer.mk s).renderedLines n narHash signatures)) s = .ok m) ↔
    Harmless n (added (printedFields s n narHash signatures)) := by
  rw [parseNarinfo, renderedLines_fields, lines_fields named_printedFields]
  constructor
  · rintro ⟨m, hm⟩
    cases hf : parseLines s {} (parsedLines (printedFields s n narHash signatures)) with
    | error e => simp [hf, Except.bind] at hm
    | ok f => exact harmless_of_filled (parseLines_iff.mp hf)
  · intro h
    rw [parseLines_iff.mpr (filled_of_harmless h)]
    exact ⟨_, rfl⟩

theorem storePath_of_printed (h : parseNarinfo
      (unlines ((NarInfoRenderer.mk s).renderedLines n narHash signatures)) s = .ok m) :
    m.storePath = firstPiece n.storePath := by
  obtain ⟨f, hf, hsp, -⟩ := parseNarinfo_ok h
  rw [renderedLines_fields, lines_fields named_printedFields] at hf
  have hharmless := harmless_of_filled (parseLines_iff.mp hf)
  rw [parseLines_iff.mpr (filled_of_harmless hharmless)] at hf
  cases hf
  exact (Option.some.inj hsp).symm

theorem added_printedFields : added (printedFields s n narHash signatures) =
    ([n.storePath, n.url, n.compression, referencesValue s n.sortedReferences] ++
      (n.deriver.toList.map s.displayPath ++
        (sortTexts signatures ++ n.caNarinfoString.toList))).flatMap addedLines := by
  simp only [added, printedFields, requiredFields, List.flatMap_append, List.flatMap_map,
    List.flatMap_cons, List.flatMap_nil, addedLines_of_not_mem (singleLine_display narHash).1,
    addedLines_of_not_mem (singleLine_decimal _).1, List.nil_append, List.append_nil]

theorem singleLine_encoded (hb : Base64.Printable) (bytes : List UInt8) :
    SingleLine (':' :: Base64.encode bytes) ∧ (Base64.encode bytes).head? ≠ some ' ' := by
  constructor
  · apply singleLine_of_forall
    intro c hc
    rcases List.mem_cons.mp hc with rfl | hc
    · decide
    · have := hb _ c hc
      refine ⟨?_, ?_⟩ <;> rintro rfl <;> exact absurd this (by decide)
  · intro h
    exact absurd (hb _ _ (List.mem_of_head? h)) (by decide)

variable [Ed25519]

def linesAdded (s : StoreDir) (n : NarInfo) (keys : List NamedSigningKey) : List Text :=
  ([n.storePath, n.url, n.compression, referencesValue s n.sortedReferences] ++
    (n.deriver.toList.map s.displayPath ++
      (n.signatures ++ keys.map (fun key => key.name ++ [':']) ++
        n.caNarinfoString.toList))).flatMap addedLines

theorem marks_signatures (hb : Base64.Printable) (keys : List NamedSigningKey)
    (message : ByteArray) :
    ((keys.map (fun key => key.signMessage message)).flatMap addedLines).map mark =
      ((keys.map (fun key => key.name ++ [':'])).flatMap addedLines).map mark := by
  rw [List.flatMap_map, List.flatMap_map, List.map_flatMap, List.map_flatMap]
  refine List.flatMap_congr (fun key _ => ?_)
  obtain ⟨hs, hr⟩ := singleLine_encoded hb (Ed25519.sign key.key message)
  exact marks_addedLines key.name hs hr

theorem harmless_signed (hb : Base64.Printable) (keys : List NamedSigningKey)
    (message : ByteArray) :
    Harmless n (added (printedFields s n narHash
      (n.signatures ++ keys.map (fun key => key.signMessage message)))) ↔
    Harmless n (linesAdded s n keys) := by
  apply harmless_congr
  have hsorted := (sortTexts_perm
    (n.signatures ++ keys.map (fun key => key.signMessage message))).flatMap_right addedLines
  rw [added_printedFields, linesAdded]
  simp only [List.flatMap_append, List.map_append]
  refine List.Perm.append_left _ (List.Perm.append_left _ (List.Perm.append_right _ ?_))
  have hmarks := hsorted.map mark
  rwa [List.flatMap_append, List.map_append, marks_signatures hb] at hmarks

end

end Printed
