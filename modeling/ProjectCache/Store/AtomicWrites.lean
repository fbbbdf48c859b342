import ProjectCache.Store.Holding

namespace AtomicWrites

open Textual Project DepotPath FilePaths FileSystem Filesystem Store Programs

structure FilesystemRun where
  storage : Store.FilesystemStorage
  start : Files
  empty : ∀ name, start.entries (narPath storage name) = none
  schedule : Pool.Schedule machine Request

namespace FilesystemRun

variable (r : FilesystemRun)

def pool (n : Nat) : Pool machine Request Answer :=
  Pool.run (fun q => q.program r.storage) ⟨r.start, []⟩ r.schedule n

def files (n : Nat) : Files := (r.pool n).state

def Happens (i n : Nat) (event : Prog.Event Filesystem.Interface) : Prop :=
  Pool.Happens (fun q => q.program r.storage) ⟨r.start, []⟩ r.schedule i n event

def Draws (i k : Nat) : Prop := r.Happens i k ⟨.nowV7, .ok (r.schedule.env k).uuid⟩

def Fresh (n : Nat) : Prop :=
  ∀ i j k l, k < n → l < n → r.Draws i k → r.Draws j l →
    (r.schedule.env k).uuid = (r.schedule.env l).uuid → k = l

def object (o : NarObjectPath) (n : Nat) : Option BlobBytes :=
  match (r.files n).entries (narPath r.storage o.file) with
  | some (.file file) => some ((r.files n).contents file)
  | _ => none

def Complete (n : Nat) (o : NarObjectPath) (body : BlobBytes) : Prop :=
  ∃ j q rest k name, (r.pool n).tasks[j]? = some ⟨q, rest⟩ ∧ q.path = o ∧ q.Puts body ∧ k < n ∧
    r.Happens j k ⟨.file (.rename (narPath r.storage name) (narPath r.storage o.file)), .ok ()⟩

structure Atomic (n : Nat) : Prop where
  complete : ∀ (i : Nat) o fuel bytes, (r.pool n).tasks[i]? =
    some ⟨.getBytes o fuel, .done (.ok (.bytes (some bytes)))⟩ → r.Complete n o bytes
  agree : ∀ o (es es' : Nat → Env), (∀ k, (es k).fault.fails = false) →
    (∀ k, (es' k).fault.fails = false) →
    match r.object o n with
    | none =>
      (machine.exec (FilesystemStorage.head r.storage o.text) es (r.files n)).2 = .ok none ∧
      ∀ fuel, (machine.exec (FilesystemStorage.getBytes r.storage fuel o.text) es'
        (r.files n)).2 = .ok none
    | some bytes =>
      (machine.exec (FilesystemStorage.head r.storage o.text) es (r.files n)).2 =
        .ok (some ⟨octetStream, some bytes.length, none, none⟩) ∧
      ∀ fuel, bytes.length < fuel →
        (machine.exec (FilesystemStorage.getBytes r.storage fuel o.text) es' (r.files n)).2 =
          .ok (some bytes)
  unchanged : ∀ (i : Nat) q x, q.IsPut → (r.pool n).tasks[i]? = some ⟨q, .done (.error x)⟩ →
    ∀ k < n, r.schedule.choice k = .advance i → ∀ o, r.object o (k + 1) = r.object o k
  cleaned : ∀ (i : Nat) q x, q.IsPut → (r.pool n).tasks[i]? = some ⟨q, .done (.error x)⟩ →
    (∀ k < n, ∀ path y, r.Happens i k ⟨.file (.removeFile path), .error y⟩ → y = .io .notFound) →
    ∀ k < n, r.Draws i k → (r.files n).entries (Store.FilesystemStorage.temporaryPathFor
      (narPath r.storage q.path.file) (r.schedule.env k).uuid) = none

def Drew (i n : Nat) (q : Request) (name : Text) : Prop :=
  ∃ d < n, r.Draws i d ∧ name = tempName q.path.file (r.schedule.env d).uuid ∧
    ∀ k < n, r.Draws i k → k = d

def Settled (n : Nat) (o : NarObjectPath) (file : Handle) : Prop :=
  file < (r.files n).next ∧
    (∀ p, (r.files n).entries p = some (.file file) → p = narPath r.storage o.file) ∧
    r.Complete n o ((r.files n).contents file)

def Valid (n i : Nat) (q : Request) : Hold → Prop
  | .nothing => ∀ k < n, ¬ r.Draws i k
  | .absent name => r.Drew i n q name ∧ (r.files n).entries (narPath r.storage name) = none
  | .writing name file bytes => r.Drew i n q name ∧
    (r.files n).entries (narPath r.storage name) = some (.file file) ∧
    (r.files n).contents file = bytes
  | .leaving name => r.Drew i n q name
  | .abandoned name => r.Drew i n q name ∧ ∃ k < n, ∃ x ≠ .io .notFound,
    r.Happens i k ⟨.file (.removeFile (narPath r.storage name)), .error x⟩
  | .published => True
  | .reading file bytes => (∀ k < n, ¬ r.Draws i k) ∧ r.Settled n q.path file ∧
    bytes <+: (r.files n).contents file
  | .whole bytes => r.Complete n q.path bytes

structure Invariant (n : Nat) : Prop where
  linked : ∀ name p file, (r.files n).entries (narPath r.storage name) = some (.file file) →
    (r.files n).entries p = some (.file file) → p = narPath r.storage name
  complete : ∀ o file, (r.files n).entries (narPath r.storage o.file) = some (.file file) →
    r.Complete n o ((r.files n).contents file)
  noDirectory : ∀ name, (r.files n).entries (narPath r.storage name) ≠ some .directory
  named : ∀ name, (r.files n).entries (narPath r.storage name) ≠ none →
    (∃ o : NarObjectPath, name = o.file) ∨
      ∃ i d, d < n ∧ r.Draws i d ∧ ∃ file, name = tempName file (r.schedule.env d).uuid

inductive Effect (n i : Nat) (q : Request) (next : Hold) : Prop
  | same (h : r.files (n + 1) = r.files n)
  | madeDirs (count : Nat)
    (h : r.files (n + 1) = (r.files n).makeDirs (narDirectory r.storage) count)
  | created (name : Text) (hd : r.Drew i n q name)
    (hn : (r.files n).entries (narPath r.storage name) = none)
    (h : r.files (n + 1) = (r.files n).allocate (narPath r.storage name))
  | wrote (name : Text) (hd : r.Drew i n q name) (file : Handle) (bytes : BlobBytes)
    (hf : (r.files n).entries (narPath r.storage name) = some (.file file))
    (h : r.files (n + 1) = (r.files n).append file bytes)
  | renamed (name : Text) (hd : r.Drew i n q name) (file : Handle) (hp : next = .published)
    (hf : (r.files n).entries (narPath r.storage name) = some (.file file))
    (hc : r.Complete (n + 1) q.path ((r.files n).contents file))
    (h : r.files (n + 1) =
      (r.files n).move (narPath r.storage name) (narPath r.storage q.path.file))
  | removed (name : Text) (hd : r.Drew i n q name)
    (h : r.files (n + 1) = (r.files n).remove (narPath r.storage name))
  | deleted (hq : ¬ q.IsPut)
    (h : r.files (n + 1) = (r.files n).remove (narPath r.storage q.path.file))

section Steps

variable {r} {n i j : Nat} {q : Request} {name : Text} {o : NarObjectPath}

theorem Complete.succ {body : BlobBytes} (h : r.Complete n o body) : r.Complete (n + 1) o body := by
  obtain ⟨j, q, rest, k, name, hj, ho, hp, hk, hh⟩ := h
  obtain ⟨rest', hj'⟩ := Pool.request_of_le (Nat.le_succ n) hj
  exact ⟨j, q, rest', k, name, hj', ho, hp, Nat.lt_succ_of_lt hk, hh⟩

theorem Drew.succ (h : r.Drew i n q name) (hn : ¬ r.Draws i n) : r.Drew i (n + 1) q name := by
  obtain ⟨d, hd, hh, hname, hone⟩ := h
  refine ⟨d, Nat.lt_succ_of_lt hd, hh, hname, fun k hk hdraw => ?_⟩
  rcases Nat.lt_succ_iff_lt_or_eq.mp hk with hk | rfl
  · exact hone k hk hdraw
  · exact absurd hdraw hn

theorem noDraws_succ (h : ∀ k < n, ¬ r.Draws i k) (hn : ¬ r.Draws i n) :
    ∀ k < n + 1, ¬ r.Draws i k := by
  intro k hk
  rcases Nat.lt_succ_iff_lt_or_eq.mp hk with hk | rfl
  · exact h k hk
  · exact hn

theorem Drew.ne_file (h : r.Drew i n q name) (o : NarObjectPath) : name ≠ o.file := by
  obtain ⟨d, -, -, rfl, -⟩ := h
  exact tempName_ne_file _ _ o

theorem Drew.ne (hf : r.Fresh n) {q' : Request} {name' : Text} (h : r.Drew i n q name)
    (h' : r.Drew j n q' name') (hij : j ≠ i) : name' ≠ name := by
  obtain ⟨d, hd, hh, rfl, -⟩ := h
  obtain ⟨d', hd', hh', rfl, -⟩ := h'
  intro heq
  obtain rfl := hf _ _ _ _ hd' hd hh' hh (tempName_uuid heq)
  have hchoice := hh'.chosen.symm.trans hh.chosen
  exact hij (Choice.advance.inj hchoice)

namespace Effect

variable {next : Hold}

theorem next_le (he : r.Effect n i q next) : (r.files n).next ≤ (r.files (n + 1)).next := by
  cases he with
  | created name hd hn h => rw [h]; exact Nat.le_succ _
  | same h => rw [h]
  | madeDirs count h => rw [h]; exact Nat.le_refl _
  | wrote name hd file bytes hf h => rw [h]; exact Nat.le_refl _
  | renamed name hd file hp hf hc h => rw [h]; exact Nat.le_refl _
  | removed name hd h => rw [h]; exact Nat.le_refl _
  | deleted hq h => rw [h]; exact Nat.le_refl _

theorem entry_kept (he : r.Effect n i q next) (hd : ∀ name', r.Drew i n q name' → name ≠ name')
    (ho : ∀ o : NarObjectPath, name ≠ o.file) :
    (r.files (n + 1)).entries (narPath r.storage name) =
      (r.files n).entries (narPath r.storage name) := by
  have hne : ∀ {name'}, name ≠ name' → narPath r.storage name ≠ narPath r.storage name' :=
    fun h heq => h (narPath_injective heq)
  cases he with
  | same h => rw [h]
  | madeDirs count h => rw [h, Files.makeDirs_of_not_above _ (narPath_not_above name)]
  | created name' hd' hn h => rw [h, Files.allocate_ne _ (hne (hd name' hd'))]
  | wrote name' hd' file bytes hf h => rw [h]; rfl
  | renamed name' hd' file hp hf hc h =>
    rw [h, Files.move_ne _ (hne (hd name' hd')) (hne (ho q.path))]
  | removed name' hd' h => rw [h, Files.remove_ne _ (hne (hd name' hd'))]
  | deleted hq h => rw [h, Files.remove_ne _ (hne (ho q.path))]

theorem contents_kept (he : r.Effect n i q next) {file : Handle} (hf : file < (r.files n).next)
    (hd : ∀ name, r.Drew i n q name →
      (r.files n).entries (narPath r.storage name) ≠ some (.file file)) :
    (r.files (n + 1)).contents file = (r.files n).contents file := by
  cases he with
  | same h => rw [h]
  | madeDirs count h => rw [h]; rfl
  | created name hn' hn h => rw [h, Files.allocate_contents _ _ hf]
  | wrote name hd' other bytes hf' h =>
    have hne : file ≠ other := fun heq => hd name hd' (by rw [heq]; exact hf')
    rw [h, Files.append_ne _ _ hne]
  | renamed name hd' other hp hf' hc h => rw [h]; rfl
  | removed name hd' h => rw [h]; rfl
  | deleted hq h => rw [h]; rfl

theorem link_kept (he : r.Effect n i q next) {file : Handle} (hf : file < (r.files n).next)
    (hd : ∀ name, r.Drew i n q name →
      (r.files n).entries (narPath r.storage name) ≠ some (.file file)) {p : PathBuf}
    (hp : (r.files (n + 1)).entries p = some (.file file)) :
    (r.files n).entries p = some (.file file) := by
  cases he with
  | same h => rwa [h] at hp
  | madeDirs count h => rwa [h, Files.makeDirs_file] at hp
  | created name hn' hn h =>
    rw [h] at hp
    by_cases heq : p = narPath r.storage name
    · rw [heq, Files.allocate_self, Option.some.injEq, Entry.file.injEq] at hp
      exact absurd hp (Nat.ne_of_gt hf)
    · rwa [Files.allocate_ne _ heq] at hp
  | wrote name hd' other bytes hf' h => rwa [h] at hp
  | renamed name hd' other hp' hf' hc h =>
    rw [h] at hp
    by_cases heq : p = narPath r.storage q.path.file
    · rw [heq, Files.move_target] at hp
      exact absurd hp (hd name hd')
    · by_cases hs : p = narPath r.storage name
      · subst hs
        rw [Files.move_source _ heq] at hp
        cases hp
      · rwa [Files.move_ne _ hs heq] at hp
  | removed name hd' h => exact Files.remove_eq_some _ (h ▸ hp)
  | deleted hq h => exact Files.remove_eq_some _ (h ▸ hp)

theorem settled (he : r.Effect n i q next) {file : Handle} (hs : r.Settled n o file) :
    r.Settled (n + 1) o file ∧ (r.files (n + 1)).contents file = (r.files n).contents file := by
  obtain ⟨hlt, hlink, hc⟩ := hs
  have hd : ∀ name, r.Drew i n q name →
      (r.files n).entries (narPath r.storage name) ≠ some (.file file) := fun name hd h =>
    hd.ne_file o (narPath_injective (hlink _ h))
  have hcontents := he.contents_kept hlt hd
  refine ⟨⟨Nat.lt_of_lt_of_le hlt he.next_le, fun p hp => hlink p (he.link_kept hlt hd hp), ?_⟩,
    hcontents⟩
  rw [hcontents]
  exact hc.succ

theorem others (hf : r.Fresh n) (hinv : r.Invariant n) (he : r.Effect n i q next) (hij : j ≠ i)
    (hdraw : ¬ r.Draws j n) {q' : Request} {hold : Hold} (hv : r.Valid n j q' hold) :
    r.Valid (n + 1) j q' hold := by
  have hentry : ∀ {name}, r.Drew j n q' name → (r.files (n + 1)).entries (narPath r.storage name) =
      (r.files n).entries (narPath r.storage name) := fun hd' =>
    he.entry_kept (fun name hd => hd.ne hf hd' hij) (fun o => hd'.ne_file o)
  cases hold with
  | nothing => exact noDraws_succ hv hdraw
  | absent name =>
    refine ⟨hv.1.succ hdraw, ?_⟩
    rw [hentry hv.1]
    exact hv.2
  | writing name file bytes =>
    obtain ⟨hd', hfile, hbytes⟩ := hv
    refine ⟨hd'.succ hdraw, by rw [hentry hd']; exact hfile, ?_⟩
    rw [he.contents_kept ((r.files n).allocated _ _ hfile) (fun name' hd h => ?_)]
    · exact hbytes
    · exact hd.ne hf hd' hij (narPath_injective (hinv.linked name' _ _ h hfile))
  | leaving name => exact hv.succ hdraw
  | abandoned name =>
    obtain ⟨hd, k, hk, x, hx, hh⟩ := hv
    exact ⟨hd.succ hdraw, k, Nat.lt_succ_of_lt hk, x, hx, hh⟩
  | published => trivial
  | reading file bytes =>
    obtain ⟨hnone, hs, hp⟩ := hv
    obtain ⟨hs', hcontents⟩ := he.settled hs
    exact ⟨noDraws_succ hnone hdraw, hs', hcontents ▸ hp⟩
  | whole bytes => exact Complete.succ hv

theorem linked (hinv : r.Invariant n) (he : r.Effect n i q next) : ∀ name p file,
    (r.files (n + 1)).entries (narPath r.storage name) = some (.file file) →
      (r.files (n + 1)).entries p = some (.file file) → p = narPath r.storage name := by
  intro name p file hn hp
  cases he with
  | same h => rw [h] at hn hp; exact hinv.linked _ _ _ hn hp
  | madeDirs count h =>
    rw [h, Files.makeDirs_file] at hn hp
    exact hinv.linked _ _ _ hn hp
  | wrote name' hd file' bytes hf h => rw [h] at hn hp; exact hinv.linked _ _ _ hn hp
  | removed name' hd h =>
    rw [h] at hn hp
    exact hinv.linked _ _ _ (Files.remove_eq_some _ hn) (Files.remove_eq_some _ hp)
  | deleted hq h =>
    rw [h] at hn hp
    exact hinv.linked _ _ _ (Files.remove_eq_some _ hn) (Files.remove_eq_some _ hp)
  | created name' hd hnone h =>
    rw [h] at hn hp
    have hfresh : ∀ p, (r.files n).entries p ≠ some (.file (r.files n).next) := fun p hp =>
      Nat.lt_irrefl _ ((r.files n).allocated p _ hp)
    by_cases h₁ : narPath r.storage name = narPath r.storage name'
    · rw [h₁, Files.allocate_self, Option.some.injEq, Entry.file.injEq] at hn
      subst hn
      by_cases h₂ : p = narPath r.storage name'
      · rw [h₂, h₁]
      · rw [Files.allocate_ne _ h₂] at hp
        exact absurd hp (hfresh p)
    · rw [Files.allocate_ne _ h₁] at hn
      by_cases h₂ : p = narPath r.storage name'
      · rw [h₂, Files.allocate_self, Option.some.injEq, Entry.file.injEq] at hp
        subst hp
        exact absurd hn (hfresh _)
      · rw [Files.allocate_ne _ h₂] at hp
        exact hinv.linked _ _ _ hn hp
  | renamed name' hd file' hpub hf hc h =>
    rw [h] at hn hp
    have hmoved : ∀ p, p ≠ narPath r.storage q.path.file →
        ((r.files n).move (narPath r.storage name') (narPath r.storage q.path.file)).entries p =
          some (.file file) →
        p ≠ narPath r.storage name' ∧ (r.files n).entries p = some (.file file) := by
      intro p hne hp
      by_cases hs : p = narPath r.storage name'
      · subst hs
        rw [Files.move_source _ hne] at hp
        cases hp
      · rw [Files.move_ne _ hs hne] at hp
        exact ⟨hs, hp⟩
    by_cases h₁ : narPath r.storage name = narPath r.storage q.path.file
    · rw [h₁, Files.move_target] at hn
      by_cases h₂ : p = narPath r.storage q.path.file
      · rw [h₂, h₁]
      · obtain ⟨hs, hp⟩ := hmoved p h₂ hp
        exact absurd (hinv.linked _ _ _ hn hp) hs
    · obtain ⟨hs, hn⟩ := hmoved _ h₁ hn
      by_cases h₂ : p = narPath r.storage q.path.file
      · rw [h₂, Files.move_target] at hp
        exact absurd (hinv.linked _ _ _ hn hp).symm hs
      · exact hinv.linked _ _ _ hn (hmoved p h₂ hp).2

theorem complete (hinv : r.Invariant n) (he : r.Effect n i q next) : ∀ o file,
    (r.files (n + 1)).entries (narPath r.storage o.file) = some (.file file) →
      r.Complete (n + 1) o ((r.files (n + 1)).contents file) := by
  intro o file ho
  have hkept : (r.files n).entries (narPath r.storage o.file) = some (.file file) →
      r.Complete (n + 1) o ((r.files (n + 1)).contents file) := by
    intro hf
    rw [he.contents_kept ((r.files n).allocated _ _ hf) (fun name hd h =>
      hd.ne_file o (narPath_injective (hinv.linked _ _ _ hf h)))]
    exact (hinv.complete o file hf).succ
  cases he with
  | same h => exact hkept (h ▸ ho)
  | madeDirs count h => exact hkept (by rwa [h, Files.makeDirs_file] at ho)
  | wrote name hd file' bytes hf h => exact hkept (by rwa [h] at ho)
  | removed name hd h => exact hkept (Files.remove_eq_some _ (h ▸ ho))
  | deleted hq h => exact hkept (Files.remove_eq_some _ (h ▸ ho))
  | created name hd hn h =>
    rw [h, Files.allocate_ne _ (fun heq => hd.ne_file o (narPath_injective heq).symm)] at ho
    exact hkept ho
  | renamed name hd file' hp hf hc h =>
    have hs : narPath r.storage o.file ≠ narPath r.storage name := fun heq =>
      hd.ne_file o (narPath_injective heq).symm
    by_cases ht : narPath r.storage o.file = narPath r.storage q.path.file
    · rw [h, ht, Files.move_target, hf, Option.some.injEq, Entry.file.injEq] at ho
      rw [h, NarObjectPath.file_injective (narPath_injective ht), ← ho]
      exact hc
    · rw [h, Files.move_ne _ hs ht] at ho
      exact hkept ho

theorem noDirectory (hinv : r.Invariant n) (he : r.Effect n i q next) : ∀ name,
    (r.files (n + 1)).entries (narPath r.storage name) ≠ some .directory := by
  intro name hdir
  cases he with
  | same h => exact hinv.noDirectory name (h ▸ hdir)
  | madeDirs count h =>
    rw [h, Files.makeDirs_of_not_above _ (narPath_not_above name)] at hdir
    exact hinv.noDirectory name hdir
  | wrote name' hd file' bytes hf h => exact hinv.noDirectory name (by rwa [h] at hdir)
  | removed name' hd h => exact hinv.noDirectory name (Files.remove_eq_some _ (h ▸ hdir))
  | deleted hq h => exact hinv.noDirectory name (Files.remove_eq_some _ (h ▸ hdir))
  | created name' hd hn h =>
    rw [h] at hdir
    by_cases heq : narPath r.storage name = narPath r.storage name'
    · rw [heq, Files.allocate_self] at hdir
      cases hdir
    · rw [Files.allocate_ne _ heq] at hdir
      exact hinv.noDirectory name hdir
  | renamed name' hd file' hp hf hc h =>
    rw [h] at hdir
    by_cases ht : narPath r.storage name = narPath r.storage q.path.file
    · rw [ht, Files.move_target] at hdir
      exact hinv.noDirectory name' hdir
    · by_cases hs : narPath r.storage name = narPath r.storage name'
      · rw [hs] at hdir ht
        rw [Files.move_source _ ht] at hdir
        cases hdir
      · rw [Files.move_ne _ hs ht] at hdir
        exact hinv.noDirectory name hdir

theorem named (hinv : r.Invariant n) (he : r.Effect n i q next) : ∀ name,
    (r.files (n + 1)).entries (narPath r.storage name) ≠ none →
      (∃ o : NarObjectPath, name = o.file) ∨
        ∃ i d, d < n + 1 ∧ r.Draws i d ∧ ∃ file, name = tempName file (r.schedule.env d).uuid := by
  intro name hne
  have hold : (r.files n).entries (narPath r.storage name) ≠ none →
      (∃ o : NarObjectPath, name = o.file) ∨
        ∃ i d, d < n + 1 ∧ r.Draws i d ∧ ∃ file, name = tempName file (r.schedule.env d).uuid := by
    intro h
    refine (hinv.named name h).imp_right ?_
    rintro ⟨i, d, hd, hh⟩
    exact ⟨i, d, Nat.lt_succ_of_lt hd, hh⟩
  by_cases hfile : ∃ o : NarObjectPath, name = o.file
  · exact Or.inl hfile
  by_cases hdrawn : ∃ name', r.Drew i n q name' ∧ name = name'
  · obtain ⟨_, ⟨d, hd, hh, rfl, -⟩, rfl⟩ := hdrawn
    exact Or.inr ⟨i, d, Nat.lt_succ_of_lt hd, hh, _, rfl⟩
  · refine hold ?_
    rw [← he.entry_kept (fun name' hd heq => hdrawn ⟨name', hd, heq⟩)
      (fun o heq => hfile ⟨o, heq⟩)]
    exact hne

theorem invariant (hinv : r.Invariant n) (he : r.Effect n i q next) : r.Invariant (n + 1) where
  linked := he.linked hinv
  complete := he.complete hinv
  noDirectory := he.noDirectory hinv
  named := he.named hinv

end Effect

theorem call_eq {event event' : Prog.Event Filesystem.Interface} (h : r.Happens i n event)
    (h' : r.Happens i n event') : event.call = event'.call := by
  obtain ⟨p, resume, hc⟩ := h.atCall
  obtain ⟨p', resume', hc'⟩ := h'.atCall
  have heq := hc.symm.trans hc'
  simp only [Option.some.injEq, Task.mk.injEq, Prog.call.injEq] at heq
  exact heq.2.1

theorem not_draws {c : FileSystem.Call} {reply : Except Error c.Reply}
    (h : r.Happens i n ⟨.file c, reply⟩) : ¬ r.Draws i n := by
  intro hd
  cases call_eq h hd

theorem files_succ {c : FileSystem.Call} {reply : Except Error c.Reply}
    (h : r.Happens i n ⟨.file c, reply⟩) :
    r.files (n + 1) = (FileSystem.answer c (r.schedule.env n).fault (r.files n)).1 ∧
      reply = (FileSystem.answer c (r.schedule.env n).fault (r.files n)).2.mapError .io :=
  ⟨h.state, h.reply⟩

theorem of_ok {c : FileSystem.Call} {a : c.Reply} (h : r.Happens i n ⟨.file c, .ok a⟩) :
    (FileSystem.answer c (r.schedule.env n).fault (r.files n)).2 = .ok a := by
  have hr := (files_succ h).2
  cases hx : (FileSystem.answer c (r.schedule.env n).fault (r.files n)).2 with
  | ok b =>
    rw [hx] at hr
    exact congrArg Except.ok (Except.ok.inj hr).symm
  | error x =>
    rw [hx] at hr
    cases hr

theorem of_error {c : FileSystem.Call} {x : Error} (h : r.Happens i n ⟨.file c, .error x⟩) :
    ∃ kind, x = .io kind ∧
      (FileSystem.answer c (r.schedule.env n).fault (r.files n)).2 = .error kind := by
  have hr := (files_succ h).2
  cases hx : (FileSystem.answer c (r.schedule.env n).fault (r.files n)).2 with
  | ok b =>
    rw [hx] at hr
    cases hr
  | error kind =>
    rw [hx] at hr
    exact ⟨kind, Except.error.inj hr, rfl⟩

theorem Hold.drew {hold : Hold} (hv : r.Valid n i q hold) (hn : hold.unfinished = some name) :
    r.Drew i n q name := by
  cases hold with
  | writing name' file bytes => exact Option.some.inj hn ▸ hv.1
  | leaving name' => exact Option.some.inj hn ▸ hv
  | _ => cases hn

theorem effect_of_step {hold next : Hold} {event : Prog.Event Filesystem.Interface}
    (hf : r.Fresh (n + 1)) (hinv : r.Invariant n) (hh : r.Happens i n event)
    (ht : ∃ rest, (r.pool n).tasks[i]? = some ⟨q, rest⟩) (hv : r.Valid n i q hold)
    (hs : Step r.storage q hold event next) : r.Effect n i q next ∧ r.Valid (n + 1) i q next := by
  cases hs with
  | createDirAll reply =>
    refine ⟨?_, noDraws_succ hv (not_draws hh)⟩
    rcases createDirAll_state (r.files n) (r.schedule.env n).fault (narDirectory r.storage)
      with h | ⟨count, h⟩
    · exact .same ((files_succ hh).1.trans h)
    · exact .madeDirs count ((files_succ hh).1.trans h)
  | metadata reply => exact ⟨.same (files_succ hh).1, noDraws_succ hv (not_draws hh)⟩
  | delete reply hq =>
    refine ⟨?_, noDraws_succ hv (not_draws hh)⟩
    rcases removeFile_cases (r.files n) (r.schedule.env n).fault
      (narPath r.storage q.path.file) with ⟨-, h⟩ | ⟨h, -⟩
    · exact .deleted hq ((files_succ hh).1.trans h)
    · exact .same ((files_succ hh).1.trans h)
  | drew uuid =>
    have hstate : r.files (n + 1) = r.files n := hh.state
    obtain rfl : uuid = (r.schedule.env n).uuid := Except.ok.inj hh.reply
    refine ⟨.same hstate, ⟨n, Nat.lt_succ_self n, hh, rfl, fun k hk hd => ?_⟩, ?_⟩
    · rcases Nat.lt_succ_iff_lt_or_eq.mp hk with hk | hk
      · exact absurd hd (hv k hk)
      · exact hk
    · rw [hstate]
      by_contra hne
      rcases hinv.named _ hne with ⟨o, ho⟩ | ⟨j, d, hd, hdraw, file, hname⟩
      · exact tempName_ne_file _ _ o ho
      · have heq := hf _ _ _ _ (Nat.lt_succ_self n) (Nat.lt_succ_of_lt hd) hh hdraw
          (tempName_uuid hname)
        exact absurd hd (heq ▸ Nat.lt_irrefl n)
  | notDrawn x => cases hh.reply
  | created name file =>
    have hok := of_ok hh
    rcases create_new (r.schedule.env n).fault hv.2 with ⟨⟨x, hx⟩, -⟩ | ⟨hx, hst⟩
    · cases hx.symm.trans hok
    · have hstate := (files_succ hh).1.trans hst
      obtain rfl : (r.files n).next = file := Except.ok.inj (hx.symm.trans hok)
      refine ⟨.created name hv.1 hv.2 hstate, hv.1.succ (not_draws hh), ?_⟩
      rw [hstate]
      exact ⟨Files.allocate_self _ _, if_pos rfl⟩
  | notCreated name x =>
    obtain ⟨kind, -, herror⟩ := of_error hh
    refine ⟨?_, hv.1.succ (not_draws hh)⟩
    rcases create_new (r.schedule.env n).fault hv.2 with ⟨-, hst | hst⟩ | ⟨hx, -⟩
    · exact .same ((files_succ hh).1.trans hst)
    · exact .created name hv.1 hv.2 ((files_succ hh).1.trans hst)
    · cases hx.symm.trans herror
  | wrote name file bytes more =>
    obtain ⟨hd, hfile, hbytes⟩ := hv
    obtain ⟨kept, hst, hkept⟩ := write_state (r.files n) (r.schedule.env n).fault file more
    obtain rfl := hkept (of_ok hh)
    have hstate := (files_succ hh).1.trans hst
    refine ⟨.wrote name hd file kept hfile hstate, hd.succ (not_draws hh), ?_⟩
    rw [hstate]
    exact ⟨hfile, by rw [Files.append_self, hbytes]⟩
  | flushed name file bytes =>
    exact ⟨.same (files_succ hh).1, hv.1.succ (not_draws hh), by rw [(files_succ hh).1]; exact hv.2⟩
  | synced name file bytes =>
    exact ⟨.same (files_succ hh).1, hv.1.succ (not_draws hh), by rw [(files_succ hh).1]; exact hv.2⟩
  | renamed name file bytes hp =>
    obtain ⟨hd, hfile, hbytes⟩ := hv
    rcases rename_cases (r.files n) (r.schedule.env n).fault
      (narPath r.storage name) (narPath r.storage q.path.file) with
      ⟨⟨x, hx⟩, -⟩ | ⟨-, -, -, hst⟩
    · cases hx.symm.trans (of_ok hh)
    · refine ⟨.renamed name hd file rfl hfile ?_ ((files_succ hh).1.trans hst), trivial⟩
      obtain ⟨rest, hrest⟩ := ht
      obtain ⟨rest', hrest'⟩ := Pool.request_of_le (Nat.le_succ n) hrest
      exact ⟨i, q, rest', n, name, hrest', rfl, hbytes ▸ hp, Nat.lt_succ_self n, hh⟩
  | failed name file bytes c hc x =>
    obtain ⟨hd, hfile, hbytes⟩ := hv
    refine ⟨?_, hd.succ (not_draws hh)⟩
    cases hc with
    | write more =>
      obtain ⟨kept, hst, -⟩ := write_state (r.files n) (r.schedule.env n).fault file more
      exact .wrote name hd file kept hfile ((files_succ hh).1.trans hst)
    | flush => exact .same (files_succ hh).1
    | syncData => exact .same (files_succ hh).1
    | rename =>
      obtain ⟨kind, -, herror⟩ := of_error hh
      rcases rename_cases (r.files n) (r.schedule.env n).fault
        (narPath r.storage name) (narPath r.storage q.path.file) with
        ⟨-, hst⟩ | ⟨-, -, hok, -⟩
      · exact .same ((files_succ hh).1.trans hst)
      · cases hok.symm.trans herror
  | removed hold name hn =>
    have hd := Hold.drew hv hn
    rcases removeFile_cases (r.files n) (r.schedule.env n).fault
      (narPath r.storage name) with ⟨-, hst⟩ | ⟨-, hx | ⟨hx, -⟩⟩
    · have hstate := (files_succ hh).1.trans hst
      refine ⟨.removed name hd hstate, hd.succ (not_draws hh), ?_⟩
      rw [hstate]
      exact Files.remove_self _ _
    · cases hx.symm.trans (of_ok hh)
    · cases hx.symm.trans (of_ok hh)
  | missing hold name hn =>
    have hd := Hold.drew hv hn
    obtain ⟨kind, hkind, herror⟩ := of_error hh
    cases hkind
    rcases removeFile_cases (r.files n) (r.schedule.env n).fault
      (narPath r.storage name) with ⟨hx, -⟩ | ⟨hst, hx | ⟨-, hnone⟩⟩
    · cases hx.symm.trans herror
    · cases hx.symm.trans herror
    · have hstate := (files_succ hh).1.trans hst
      exact ⟨.same hstate, hd.succ (not_draws hh), by rw [hstate]; exact hnone⟩
  | notRemoved hold name hn x hx =>
    have hd := Hold.drew hv hn
    obtain ⟨kind, -, herror⟩ := of_error hh
    rcases removeFile_cases (r.files n) (r.schedule.env n).fault
      (narPath r.storage name) with ⟨hok, -⟩ | ⟨hst, -⟩
    · cases hok.symm.trans herror
    · exact ⟨.same ((files_succ hh).1.trans hst), hd.succ (not_draws hh), n, Nat.lt_succ_self n,
        x, hx, hh⟩
  | opened file =>
    have hfile := openFile_ok (of_ok hh)
    have heffect : r.Effect n i q (.reading file []) := .same (files_succ hh).1
    have hsettled : r.Settled n q.path file := ⟨(r.files n).allocated _ _ hfile,
      fun p hp => hinv.linked _ p _ hfile hp, hinv.complete q.path file hfile⟩
    exact ⟨heffect, noDraws_succ hv (not_draws hh), (heffect.settled hsettled).1, List.nil_prefix⟩
  | notOpened x => exact ⟨.same (files_succ hh).1, noDraws_succ hv (not_draws hh)⟩
  | read file bytes chunk hc =>
    obtain ⟨hnone, hsettled, rest, hrest⟩ := hv
    have heffect : r.Effect n i q (.reading file (bytes ++ chunk)) := .same (files_succ hh).1
    obtain ⟨hsettled', hcontents⟩ := heffect.settled hsettled
    refine ⟨heffect, noDraws_succ hnone (not_draws hh), hsettled', ?_⟩
    have hchunk := read_ok (of_ok hh)
    rw [hcontents, hchunk, ← hrest, List.drop_left]
    exact (List.prefix_append_right_inj bytes).mpr (List.take_prefix _ rest)
  | readAll file bytes =>
    obtain ⟨hnone, hsettled, rest, hrest⟩ := hv
    have heffect : r.Effect n i q (.whole bytes) := .same (files_succ hh).1
    refine ⟨heffect, ?_⟩
    have hend := take_max_one_eq_nil (read_ok (of_ok hh)).symm
    rw [← hrest, List.drop_left] at hend
    have hall : bytes = (r.files n).contents file := by rw [← hrest, hend, List.append_nil]
    change r.Complete (n + 1) q.path bytes
    rw [hall]
    exact hsettled.2.2.succ
  | notRead file bytes x => exact ⟨.same (files_succ hh).1, noDraws_succ hv.1 (not_draws hh)⟩

theorem Fresh.mono {m : Nat} (hf : r.Fresh n) (hmn : m ≤ n) : r.Fresh m :=
  fun i j k l hk hl => hf i j k l (Nat.lt_of_lt_of_le hk hmn) (Nat.lt_of_lt_of_le hl hmn)

theorem invariant_zero : r.Invariant 0 := by
  have hempty : ∀ name, (r.files 0).entries (narPath r.storage name) = none := r.empty
  constructor
  · intro name p file h
    cases (hempty name).symm.trans h
  · intro o file h
    cases (hempty o.file).symm.trans h
  · intro name h
    cases (hempty name).symm.trans h
  · intro name h
    exact absurd (hempty name) h

theorem Invariant.succ (hinv : r.Invariant n) (h : r.files (n + 1) = r.files n) :
    r.Invariant (n + 1) := by
  constructor
  · rw [h]
    exact hinv.linked
  · rw [h]
    exact fun o file ho => (hinv.complete o file ho).succ
  · rw [h]
    exact hinv.noDirectory
  · rw [h]
    intro name hne
    refine (hinv.named name hne).imp_right ?_
    rintro ⟨i, d, hd, hh⟩
    exact ⟨i, d, Nat.lt_succ_of_lt hd, hh⟩

theorem kept (hf : r.Fresh n) : Pool.Kept (fun q => q.program r.storage) ⟨r.start, []⟩ r.schedule
    (Step r.storage) .nothing r.Invariant r.Valid n where
  begins := invariant_zero
  submitted := by
    intro k i q hk _ hnone _ l hl hd
    obtain ⟨q', resume, hc⟩ := hd.atCall
    obtain ⟨rest, hrest⟩ := Pool.request_of_le (Nat.le_of_lt_succ hl) hc
    cases hnone.symm.trans hrest
  quiet := by
    intro k hk hq hstate hinv
    refine ⟨hinv.succ hstate, fun i q hold hv => ?_⟩
    have heffect : r.Effect k (i + 1) q .nothing := .same hstate
    exact heffect.others (hf.mono (Nat.le_of_lt hk)) hinv (Nat.ne_of_lt (Nat.lt_succ_self i))
      (hq i _) hv
  advanced := by
    intro k i q hold next event hk hinv hh ht hv hs
    obtain ⟨heffect, hnext⟩ := effect_of_step (hf.mono hk) hinv hh ht hv hs
    refine ⟨heffect.invariant hinv, hnext, fun j q' other hji _ hother => ?_⟩
    have hdraw : ¬ r.Draws j k := fun hd =>
      hji (Choice.advance.inj (hd.chosen.symm.trans hh.chosen))
    exact heffect.others (hf.mono (Nat.le_of_lt hk)) hinv hji hdraw hother

theorem run (hf : r.Fresh n) : r.Invariant n ∧
    ∀ (i : Nat) q rest, (r.pool n).tasks[i]? = some ⟨q, rest⟩ →
      ∃ hold, rest.Keeps (Step r.storage q) Ends hold ∧ r.Valid n i q hold :=
  (kept hf).run rfl keeps_program (Nat.le_refl n)

theorem Effect.object_kept {next : Hold} (hinv : r.Invariant n) (he : r.Effect n i q next)
    (hp : next ≠ .published) (hq : q.IsPut) : r.object o (n + 1) = r.object o n := by
  have hne : ∀ {name}, r.Drew i n q name → narPath r.storage o.file ≠ narPath r.storage name :=
    fun hd heq => hd.ne_file o (narPath_injective heq).symm
  have hentry : (r.files (n + 1)).entries (narPath r.storage o.file) =
      (r.files n).entries (narPath r.storage o.file) := by
    cases he with
    | same h => rw [h]
    | madeDirs count h => rw [h, Files.makeDirs_of_not_above _ (narPath_not_above _)]
    | created name hd hn h => rw [h, Files.allocate_ne _ (hne hd)]
    | wrote name hd file bytes hf h => rw [h]; rfl
    | renamed name hd file hpub hf hc h => exact absurd hpub hp
    | removed name hd h => rw [h, Files.remove_ne _ (hne hd)]
    | deleted hd h => exact absurd hq hd
  unfold object
  rw [hentry]
  split
  · rename_i file hfile
    rw [he.contents_kept ((r.files n).allocated _ _ hfile) (fun name hd h =>
      hd.ne_file o (narPath_injective (hinv.linked _ _ _ hfile h)))]
  · rfl

theorem done_of_published {rest : Action Answer}
    (h : rest.Keeps (Step r.storage q) Ends .published) : ∃ answer, rest = .done (.ok answer) := by
  cases rest with
  | done result =>
    cases result with
    | ok answer => exact ⟨answer, rfl⟩
    | error x => exact False.elim h
  | call c resume =>
    obtain ⟨next, hs, -⟩ := h (.error .outOfFuel)
    cases hs with
    | notRemoved _ name hn x hx => cases hn

theorem unchanged_of_failed (hf : r.Fresh n) {x : Error} (hq : q.IsPut)
    (h : (r.pool n).tasks[i]? = some ⟨q, .done (.error x)⟩) {k : Nat} (hk : k < n)
    (hi : r.schedule.choice k = .advance i) : r.object o (k + 1) = r.object o k := by
  cases htask : (r.pool k).tasks[i]? with
  | none =>
    have hsame : r.pool (k + 1) = r.pool k := by
      change Pool.next _ (r.pool k) (r.schedule.choice k) (r.schedule.env k) = r.pool k
      rw [hi, Pool.next, htask]
    simp only [object, files, hsame]
  | some task =>
    obtain ⟨q', rest⟩ := task
    obtain ⟨later, hlater⟩ := Pool.request_of_le (Nat.le_of_lt hk) htask
    obtain ⟨rfl, -⟩ : q = q' ∧ _ = later := by simpa using h.symm.trans hlater
    cases rest with
    | done result =>
      have hsame : r.pool (k + 1) = r.pool k := Pool.run_succ_of_done hi htask
      simp only [object, files, hsame]
    | call c resume =>
      obtain ⟨hinv, htasks⟩ := run (hf.mono (Nat.le_of_lt hk))
      obtain ⟨hold, hkeeps, hv⟩ := htasks i q _ htask
      have hh : r.Happens i k ⟨c, (answer c (r.schedule.env k) (r.files k)).2⟩ :=
        ⟨hi, ⟨q, resume, htask⟩, rfl⟩
      obtain ⟨next, hs, hnext⟩ := hkeeps (answer c (r.schedule.env k) (r.files k)).2
      obtain ⟨heffect, -⟩ := effect_of_step (hf.mono hk) hinv hh ⟨_, htask⟩ hv hs
      refine heffect.object_kept hinv (fun hpub => ?_) hq
      subst hpub
      obtain ⟨answer, hdone⟩ := done_of_published hnext
      have hrest : (r.pool (k + 1)).tasks[i]? = some ⟨q, .done (.ok answer)⟩ := by
        rw [← hdone]
        exact Pool.task_succ_of_atCall hi htask
      cases h.symm.trans (Pool.done_of_le hk hrest)

theorem cleaned_of_failed (hf : r.Fresh n) {x : Error}
    (h : (r.pool n).tasks[i]? = some ⟨q, .done (.error x)⟩)
    (hclean : ∀ k < n, ∀ path y, r.Happens i k ⟨.file (.removeFile path), .error y⟩ →
      y = .io .notFound) {k : Nat} (hk : k < n) (hd : r.Draws i k) :
    (r.files n).entries (Store.FilesystemStorage.temporaryPathFor
      (narPath r.storage q.path.file) (r.schedule.env k).uuid) = none := by
  obtain ⟨hold, hends, hv⟩ := (run hf).2 i q _ h
  rw [temporaryPathFor_narPath]
  cases hold with
  | nothing => exact absurd hd (hv k hk)
  | absent name =>
    obtain ⟨⟨d, -, -, rfl, hone⟩, hnone⟩ := hv
    rw [hone k hk hd]
    exact hnone
  | abandoned name =>
    obtain ⟨-, l, hl, y, hy, hh⟩ := hv
    exact absurd (hclean l hl _ y hh) hy
  | reading file bytes => exact absurd hd (hv.1 k hk)
  | _ => exact False.elim hends

end Steps

section Alone

variable {s : Files} {file : Handle} {path : PathBuf}

def Faultless (e : Env) : Prop := e.fault.fails = false

theorem wp_perform {c : FileSystem.Call} {post : Except Error c.Reply → Files → Prop}
    (h : ∀ e : Env, Faultless e → post ((FileSystem.answer c e.fault s).2.mapError .io)
      (FileSystem.answer c e.fault s).1) : machine.wp Faultless post (Filesystem.perform c) s :=
  Machine.wp_call.mpr (fun e he => h e he)

theorem wp_readToEnd (bytes rest : BlobBytes) {fuel : Nat} (hb : s.contents file = bytes ++ rest)
    (hf : rest.length < fuel) :
    machine.wp Faultless (fun r _ => r = .ok (s.contents file)) (readToEnd file bytes fuel) s := by
  induction fuel generalizing bytes rest with
  | zero => omega
  | succ fuel ih =>
    refine Machine.wp_bind.mpr (wp_perform (fun e he => ?_))
    have hread : FileSystem.answer (.read file bytes.length) e.fault s =
        (s, .ok (rest.take (max 1 e.fault.progress))) := by
      unfold Faultless at he
      simp [FileSystem.answer, settle, he, hb]
    rw [hread]
    change machine.wp _ _ (if rest.take (max 1 e.fault.progress) = [] then .done (.ok bytes)
      else readToEnd file (bytes ++ rest.take (max 1 e.fault.progress)) fuel) s
    by_cases hend : rest.take (max 1 e.fault.progress) = []
    · rw [if_pos hend]
      change _ = _
      rw [hb, take_max_one_eq_nil hend, List.append_nil]
    · rw [if_neg hend]
      refine ih _ (rest.drop (max 1 e.fault.progress)) ?_ ?_
      · rw [hb, List.append_assoc, List.take_append_drop]
      · have hne : rest ≠ [] := by
          rintro rfl
          exact hend List.take_nil
        have hpos := List.length_pos_of_ne_nil hne
        rw [List.length_drop]
        omega

variable {r : FilesystemRun} {o : NarObjectPath}

theorem wp_head_none (h : s.entries (narPath r.storage o.file) = none) :
    machine.wp Faultless (fun x _ => x = .ok none) (FilesystemStorage.head r.storage o.text) s := by
  refine Machine.wp_bind.mpr ?_
  rw [resolve_eq]
  refine Machine.wp_bind.mpr (Machine.wp_attempt (wp_perform (fun e he => ?_)))
  unfold Faultless at he
  simp only [FileSystem.answer, he, h]
  rfl

theorem wp_head_some (h : s.entries (narPath r.storage o.file) = some (.file file)) :
    machine.wp Faultless
      (fun x _ => x = .ok (some ⟨octetStream, some (s.contents file).length, none, none⟩))
      (FilesystemStorage.head r.storage o.text) s := by
  refine Machine.wp_bind.mpr ?_
  rw [resolve_eq]
  refine Machine.wp_bind.mpr (Machine.wp_attempt (wp_perform (fun e he => ?_)))
  unfold Faultless at he
  simp only [FileSystem.answer, he, h]
  rfl

theorem wp_getBytes_none (h : s.entries (narPath r.storage o.file) = none) (fuel : Nat) :
    machine.wp Faultless (fun x _ => x = .ok none)
      (FilesystemStorage.getBytes r.storage fuel o.text) s := by
  refine Machine.wp_bind.mpr ?_
  rw [resolve_eq]
  refine Machine.wp_bind.mpr (Machine.wp_attempt (Machine.wp_bind.mpr
    (wp_perform (fun e he => ?_))))
  unfold Faultless at he
  simp only [FileSystem.answer, lookedUp, he, h]
  rfl

theorem wp_getBytes_some (h : s.entries (narPath r.storage o.file) = some (.file file)) {fuel : Nat}
    (hf : (s.contents file).length < fuel) :
    machine.wp Faultless (fun x _ => x = .ok (some (s.contents file)))
      (FilesystemStorage.getBytes r.storage fuel o.text) s := by
  refine Machine.wp_bind.mpr ?_
  rw [resolve_eq]
  refine Machine.wp_bind.mpr (Machine.wp_attempt (Machine.wp_bind.mpr
    (wp_perform (fun e he => ?_))))
  unfold Faultless at he
  simp only [FileSystem.answer, lookedUp, he, h]
  refine Machine.wp_mono (wp_readToEnd [] _ rfl hf) (fun x t hx => ?_)
  rw [hx]
  rfl

end Alone

variable {r} {n : Nat}

theorem agree_of_fresh (hf : r.Fresh n) (o : NarObjectPath) (es es' : Nat → Env)
    (he : ∀ k, (es k).fault.fails = false) (he' : ∀ k, (es' k).fault.fails = false) :
    match r.object o n with
    | none =>
      (machine.exec (FilesystemStorage.head r.storage o.text) es (r.files n)).2 = .ok none ∧
      ∀ fuel, (machine.exec (FilesystemStorage.getBytes r.storage fuel o.text) es'
        (r.files n)).2 = .ok none
    | some bytes =>
      (machine.exec (FilesystemStorage.head r.storage o.text) es (r.files n)).2 =
        .ok (some ⟨octetStream, some bytes.length, none, none⟩) ∧
      ∀ fuel, bytes.length < fuel →
        (machine.exec (FilesystemStorage.getBytes r.storage fuel o.text) es' (r.files n)).2 =
          .ok (some bytes) := by
  unfold object
  cases hentry : (r.files n).entries (narPath r.storage o.file) with
  | none =>
    exact ⟨Machine.exec_of_wp (wp_head_none hentry) he,
      fun fuel => Machine.exec_of_wp (wp_getBytes_none hentry fuel) he'⟩
  | some entry =>
    cases entry with
    | directory => exact absurd hentry ((run hf).1.noDirectory o.file)
    | file file =>
      exact ⟨Machine.exec_of_wp (wp_head_some hentry) he,
        fun fuel hlen => Machine.exec_of_wp (wp_getBytes_some hentry hlen) he'⟩

theorem writes_atomic (hf : r.Fresh n) : r.Atomic n where
  complete := by
    intro i o fuel bytes h
    obtain ⟨hold, hends, hv⟩ := (run hf).2 i _ _ h
    obtain rfl : hold = .whole bytes := hends
    exact hv
  agree := agree_of_fresh hf
  unchanged := fun i q x hq h k hk hi o => unchanged_of_failed hf hq h hk hi
  cleaned := fun i q x _ h hclean k hk hd => cleaned_of_failed hf h hclean hk hd

def bytesRead (r : FilesystemRun) (i n : Nat) : Option BlobBytes :=
  match (r.pool n).tasks[i]? with
  | some ⟨_, .done (.ok (.bytes found))⟩ => found
  | _ => none

def exampleObject : NarObjectPath where
  text := "nar/1ngi2dxw1f7khrrjamzkkdai393lwcm8s78gvs1ag8k3n82w7bvp.nar.zst".toList
  nar := ⟨"1ngi2dxw1f7khrrjamzkkdai393lwcm8s78gvs1ag8k3n82w7bvp".toList, .zstd,
    by decide +kernel⟩

def crossedRun : FilesystemRun where
  storage := Store.FilesystemStorage.dataDirectory
  start := ⟨fun _ => none, fun _ => [], 0, fun _ _ h => by cases h⟩
  empty := fun _ => rfl
  schedule :=
    { choice := fun k =>
        [.submit (.putBytes exampleObject [1, 2, 3]),
          .submit (.putStream exampleObject ⟨[[4, 5], [6]], none⟩),
          .submit (.getBytes exampleObject 4), .advance 0, .advance 0, .advance 0, .advance 0,
          .advance 0, .advance 2, .advance 1, .advance 1, .advance 1, .advance 1, .advance 1,
          .advance 1, .advance 2, .advance 2, .advance 2, .advance 2].getD k .idle
      env := fun k => ⟨⟨k = 13, 1⟩, BitVec.ofNat 128 k⟩ }

theorem crossedRun_fresh : crossedRun.Fresh 19 := by
  intro i j k l hk hl _ _ h
  have hnat := congrArg BitVec.toNat h
  simp only [crossedRun, BitVec.toNat_ofNat] at hnat
  omega

theorem crossedRun_atomic : crossedRun.Fresh 19 ∧ crossedRun.Atomic 19 ∧
    crossedRun.bytesRead 2 19 = some [1, 2, 3] :=
  ⟨crossedRun_fresh, writes_atomic crossedRun_fresh, by decide +kernel⟩

end FilesystemRun

end AtomicWrites
