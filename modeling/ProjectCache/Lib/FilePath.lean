import ProjectCache.Lib.Text

namespace FilePaths

open Textual

inductive Component where
  | rootDir
  | curDir
  | parentDir
  | normal (segment : Text)
  deriving DecidableEq

abbrev PathBuf := List Component

def names (segments : List Text) : PathBuf := segments.map .normal

def components (path : Text) : PathBuf :=
  let segments := path.splitOn '/'
  (if startsWith ['/'] path then [.rootDir]
    else if segments.head? = some ['.'] then [.curDir] else []) ++
  (segments.filter (fun s => s ≠ [] ∧ s ≠ ['.'])).map
    (fun s => if s = ['.', '.'] then .parentDir else .normal s)

def Component.text : Component → Text
  | rootDir => []
  | curDir => ['.']
  | parentDir => ['.', '.']
  | normal segment => segment

namespace PathBuf

def display (path : PathBuf) : Text :=
  if path = [.rootDir] then ['/'] else joinWith ['/'] (path.map Component.text)

def fileName (path : PathBuf) : Option Text :=
  match path.getLast? with
  | some (.normal name) => some name
  | _ => none

def parent (path : PathBuf) : Option PathBuf :=
  match path.getLast? with
  | none | some .rootDir => none
  | some _ => some path.dropLast

def withFileName (path : PathBuf) (name : Text) : PathBuf :=
  (if path.fileName.isSome then path.dropLast else path) ++ [.normal name]

@[simp] theorem fileName_concat (path : PathBuf) (name : Text) :
    fileName (path ++ [.normal name]) = some name := by
  simp [fileName]

@[simp] theorem parent_concat (path : PathBuf) (name : Text) :
    parent (path ++ [.normal name]) = some path := by
  simp [parent]

@[simp] theorem withFileName_concat (path : PathBuf) (old name : Text) :
    withFileName (path ++ [.normal old]) name = path ++ [.normal name] := by
  simp [withFileName]

end PathBuf

def Inside (root path : PathBuf) : Prop :=
  ∃ segments : List Text, segments ≠ [] ∧ path = root ++ names segments

def segments (path : Text) : List Text := (path.splitOn '/').filter (· ≠ [])

theorem names_injective {a b : List Text} (h : names a = names b) : a = b :=
  List.map_injective_iff.mpr (fun _ _ h => Component.normal.inj h) h

theorem components_eq {path : Text} (h0 : startsWith ['/'] path = false)
    (h1 : ['.'] ∉ path.splitOn '/') (h2 : ['.', '.'] ∉ path.splitOn '/') :
    components path = names (segments path) := by
  have hhead : (path.splitOn '/').head? ≠ some ['.'] := fun h => h1 (List.mem_of_head? h)
  have hfilter : (path.splitOn '/').filter (fun s => s ≠ [] ∧ s ≠ ['.']) = segments path := by
    refine List.filter_congr (fun s hs => ?_)
    have hne : s ≠ ['.'] := fun h => h1 (h ▸ hs)
    simp [hne]
  rw [components, h0, if_neg (by simp), if_neg hhead, List.nil_append, hfilter, names]
  refine List.map_congr_left (fun s hs => if_neg (fun h => h2 ?_))
  exact h ▸ (List.mem_filter.mp hs).1

end FilePaths
