import ProjectCache.Lib.FilePath

namespace FileSystem

open FilePaths

inductive ErrorKind where
  | notFound
  | other
  deriving DecidableEq

-- An open file is its inode, whatever the entries have become since.
abbrev Handle := Nat

abbrev Bytes := List UInt8

inductive Entry where
  | file (inode : Handle)
  | directory
  deriving DecidableEq

structure Files where
  entries : PathBuf → Option Entry
  contents : Handle → Bytes
  next : Handle
  allocated : ∀ path file, entries path = some (.file file) → file < next

structure Metadata where
  isFile : Bool
  len : Nat
  deriving DecidableEq

inductive Call where
  | createDirAll (path : PathBuf)
  | create (path : PathBuf)
  | write (file : Handle) (bytes : Bytes)
  | flush (file : Handle)
  | syncData (file : Handle)
  | rename (source target : PathBuf)
  | removeFile (path : PathBuf)
  | metadata (path : PathBuf)
  | openFile (path : PathBuf)
  | read (file : Handle) (offset : Nat)

abbrev Call.Reply : Call → Type
  | createDirAll _ | write _ _ | flush _ | syncData _ | rename _ _ | removeFile _ => Unit
  | create _ | openFile _ => Handle
  | metadata _ => Metadata
  | read _ _ => Bytes

structure Fault where
  fails : Bool
  progress : Nat

namespace Files

variable (s : Files)

def isDirectory (path : PathBuf) : Bool := s.entries path = some .directory

def makeDirs (path : PathBuf) (count : Nat) : Files where
  entries := fun p =>
    if p <+: path ∧ p.length ≤ count ∧ s.entries p = none then some .directory else s.entries p
  contents := s.contents
  next := s.next
  allocated := by
    intro p file h
    split at h
    · cases h
    · exact s.allocated p file h

def allocate (path : PathBuf) : Files where
  entries := fun p => if p = path then some (.file s.next) else s.entries p
  contents := fun file => if file = s.next then [] else s.contents file
  next := s.next + 1
  allocated := by
    intro p file h
    split at h
    · cases h
      exact Nat.lt_succ_self _
    · exact Nat.lt_succ_of_lt (s.allocated p file h)

def setContents (file : Handle) (bytes : Bytes) : Files where
  entries := s.entries
  contents := fun f => if f = file then bytes else s.contents f
  next := s.next
  allocated := s.allocated

def append (file : Handle) (bytes : Bytes) : Files :=
  s.setContents file (s.contents file ++ bytes)

def move (source target : PathBuf) : Files where
  entries := fun p =>
    if p = target then s.entries source else if p = source then none else s.entries p
  contents := s.contents
  next := s.next
  allocated := by
    intro p file h
    split_ifs at h
    · exact s.allocated source file h
    · exact s.allocated p file h

def remove (path : PathBuf) : Files where
  entries := fun p => if p = path then none else s.entries p
  contents := s.contents
  next := s.next
  allocated := by
    intro p file h
    split at h
    · cases h
    · exact s.allocated p file h

theorem makeDirs_file {path p : PathBuf} {count : Nat} {file : Handle} :
    (s.makeDirs path count).entries p = some (.file file) ↔ s.entries p = some (.file file) := by
  simp only [makeDirs]
  split
  · rename_i hn
    simp [hn.2.2]
  · rfl

theorem makeDirs_of_not_above {path p : PathBuf} {count : Nat} (h : ¬ p <+: path) :
    (s.makeDirs path count).entries p = s.entries p := if_neg (fun hp => h hp.1)

theorem allocate_self (path : PathBuf) :
    (s.allocate path).entries path = some (.file s.next) := if_pos rfl

theorem allocate_ne {path p : PathBuf} (h : p ≠ path) :
    (s.allocate path).entries p = s.entries p := if_neg h

theorem allocate_contents (path : PathBuf) {file : Handle} (h : file < s.next) :
    (s.allocate path).contents file = s.contents file := if_neg (Nat.ne_of_lt h)

theorem append_self (file : Handle) (bytes : Bytes) :
    (s.append file bytes).contents file = s.contents file ++ bytes := if_pos rfl

theorem append_ne {file other : Handle} (bytes : Bytes) (h : other ≠ file) :
    (s.append file bytes).contents other = s.contents other := if_neg h

theorem move_target (source target : PathBuf) :
    (s.move source target).entries target = s.entries source := if_pos rfl

theorem move_source {source target : PathBuf} (h : source ≠ target) :
    (s.move source target).entries source = none := (if_neg h).trans (if_pos rfl)

theorem move_ne {source target p : PathBuf} (hs : p ≠ source) (ht : p ≠ target) :
    (s.move source target).entries p = s.entries p := (if_neg ht).trans (if_neg hs)

theorem remove_self (path : PathBuf) : (s.remove path).entries path = none := if_pos rfl

theorem remove_ne {path p : PathBuf} (h : p ≠ path) :
    (s.remove path).entries p = s.entries p := if_neg h

theorem remove_eq_some {path p : PathBuf} {entry : Entry}
    (h : (s.remove path).entries p = some entry) : s.entries p = some entry := by
  simp only [remove] at h
  split at h
  · cases h
  · exact h

end Files

def settle {A : Type} (e : Fault) (a : A) : Except ErrorKind A :=
  if e.fails then .error .other else .ok a

def lookedUp {A : Type} (s : Files) (path : PathBuf) (e : Fault)
    (found : Handle → Except ErrorKind A) : Except ErrorKind A :=
  if e.fails then .error .other
  else
    match s.entries path with
    | none => .error .notFound
    | some .directory => .error .other
    | some (.file h) => found h

def answer : (c : Call) → Fault → Files → Files × Except ErrorKind c.Reply
  | .createDirAll path, e, s =>
    if path.inits.any (fun p => (s.entries p).any (fun entry => entry ≠ .directory)) then
      (s, .error .other)
    else (s.makeDirs path (if e.fails then e.progress else path.length), settle e ())
  | .create path, e, s =>
    if e.fails ∧ e.progress = 0 then (s, .error .other)
    else
      match s.entries path with
      | some .directory => (s, .error .other)
      | some (.file h) => (s.setContents h [], settle e h)
      | none =>
        if path.parent.any s.isDirectory then (s.allocate path, settle e s.next)
        else (s, .error .notFound)
  | .write file bytes, e, s =>
    (s.append file (if e.fails then bytes.take e.progress else bytes), settle e ())
  | .flush _, e, s => (s, settle e ())
  | .syncData _, e, s => (s, settle e ())
  | .rename source target, e, s =>
    if e.fails then (s, .error .other)
    else
      match s.entries source with
      | none => (s, .error .notFound)
      | some .directory => (s, .error .other)
      | some (.file _) =>
        if s.isDirectory target then (s, .error .other)
        else if target.parent.any s.isDirectory then
          (s.move source target, .ok ())
        else (s, .error .notFound)
  | .removeFile path, e, s =>
    match lookedUp s path e .ok with
    | .ok _ => (s.remove path, .ok ())
    | .error x => (s, .error x)
  | .metadata path, e, s =>
    (s, if e.fails then .error .other
      else
        match s.entries path with
        | none => .error .notFound
        | some .directory => .ok ⟨false, 0⟩
        | some (.file h) => .ok ⟨true, (s.contents h).length⟩)
  | .openFile path, e, s => (s, lookedUp s path e .ok)
  | .read file offset, e, s =>
    (s, settle e (((s.contents file).drop offset).take (max 1 e.progress)))

variable {s : Files} {e : Fault} {path source target : PathBuf} {file : Handle}

theorem settle_ok {A : Type} {a b : A} (h : settle e a = .ok b) : e.fails = false ∧ a = b := by
  unfold settle at h
  split at h
  · cases h
  · rename_i hf
    exact ⟨by simpa using hf, Except.ok.inj h⟩

theorem settle_cases {A : Type} (e : Fault) (a : A) :
    settle e a = .error .other ∨ settle e a = .ok a := by
  unfold settle
  split
  · exact Or.inl rfl
  · exact Or.inr rfl

theorem lookedUp_cases (s : Files) (path : PathBuf) (e : Fault) :
    lookedUp s path e .ok = .error .other ∨
      (lookedUp s path e .ok = .error .notFound ∧ s.entries path = none) ∨
      ∃ file, lookedUp s path e .ok = .ok file ∧ s.entries path = some (.file file) := by
  unfold lookedUp
  split
  · exact Or.inl rfl
  · split
    · rename_i h
      exact Or.inr (Or.inl ⟨rfl, h⟩)
    · exact Or.inl rfl
    · rename_i file h
      exact Or.inr (Or.inr ⟨file, rfl, h⟩)

theorem createDirAll_state (s : Files) (e : Fault) (path : PathBuf) :
    (answer (.createDirAll path) e s).1 = s ∨
    ∃ count, (answer (.createDirAll path) e s).1 = s.makeDirs path count := by
  simp only [answer]
  split
  · exact Or.inl rfl
  · exact Or.inr ⟨_, rfl⟩

theorem create_new (e : Fault) (h : s.entries path = none) :
    ((∃ x, (answer (.create path) e s).2 = .error x) ∧ ((answer (.create path) e s).1 = s ∨
        (answer (.create path) e s).1 = s.allocate path)) ∨
      ((answer (.create path) e s).2 = .ok s.next ∧
        (answer (.create path) e s).1 = s.allocate path) := by
  simp only [answer, h]
  split
  · exact Or.inl ⟨⟨_, rfl⟩, Or.inl rfl⟩
  · split
    · rcases settle_cases e s.next with hx | hx
      · exact Or.inl ⟨⟨_, hx⟩, Or.inr rfl⟩
      · exact Or.inr ⟨hx, rfl⟩
    · exact Or.inl ⟨⟨_, rfl⟩, Or.inl rfl⟩

theorem write_state (s : Files) (e : Fault) (file : Handle) (bytes : Bytes) : ∃ kept : Bytes,
    (answer (.write file bytes) e s).1 = s.append file kept ∧
      ((answer (.write file bytes) e s).2 = .ok () → kept = bytes) := by
  refine ⟨if e.fails then bytes.take e.progress else bytes, rfl, fun h => ?_⟩
  simp [(settle_ok h).1]

theorem rename_cases (s : Files) (e : Fault) (source target : PathBuf) :
    ((∃ x, (answer (.rename source target) e s).2 = .error x) ∧
        (answer (.rename source target) e s).1 = s) ∨
      ∃ file, s.entries source = some (.file file) ∧
        (answer (.rename source target) e s).2 = .ok () ∧
        (answer (.rename source target) e s).1 = s.move source target := by
  simp only [answer]
  split
  · exact Or.inl ⟨⟨_, rfl⟩, rfl⟩
  split
  · exact Or.inl ⟨⟨_, rfl⟩, rfl⟩
  · exact Or.inl ⟨⟨_, rfl⟩, rfl⟩
  · rename_i file h
    split
    · exact Or.inl ⟨⟨_, rfl⟩, rfl⟩
    · split
      · exact Or.inr ⟨file, h, rfl, rfl⟩
      · exact Or.inl ⟨⟨_, rfl⟩, rfl⟩

theorem removeFile_cases (s : Files) (e : Fault) (path : PathBuf) :
    ((answer (.removeFile path) e s).2 = .ok () ∧
        (answer (.removeFile path) e s).1 = s.remove path) ∨
      ((answer (.removeFile path) e s).1 = s ∧
        ((answer (.removeFile path) e s).2 = .error .other ∨
          (answer (.removeFile path) e s).2 = .error .notFound ∧ s.entries path = none)) := by
  simp only [answer]
  rcases lookedUp_cases s path e with h | ⟨h, hn⟩ | ⟨file, h, -⟩
  · exact Or.inr ⟨by rw [h], Or.inl (by rw [h])⟩
  · exact Or.inr ⟨by rw [h], Or.inr ⟨by rw [h], hn⟩⟩
  · exact Or.inl ⟨by rw [h], by rw [h]⟩

theorem openFile_ok (h : (answer (.openFile path) e s).2 = .ok file) :
    s.entries path = some (.file file) := by
  rcases lookedUp_cases s path e with hx | ⟨hx, -⟩ | ⟨found, hx, hf⟩
  · cases hx.symm.trans h
  · cases hx.symm.trans h
  · cases hx.symm.trans h
    exact hf

theorem read_ok {offset : Nat} {chunk : Bytes}
    (h : (answer (.read file offset) e s).2 = .ok chunk) :
    chunk = ((s.contents file).drop offset).take (max 1 e.progress) := (settle_ok h).2.symm

theorem take_max_one_eq_nil {bytes : Bytes} {n : Nat} (h : bytes.take (max 1 n) = []) :
    bytes = [] := by
  rcases List.take_eq_nil_iff.mp h with h | h
  · omega
  · exact h

end FileSystem
