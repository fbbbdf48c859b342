import ProjectCache.Core.Nix

namespace Project

open Textual

abbrev Uuid := BitVec 128

def isSlugCharacter (c : Char) : Bool :=
  ('a' ≤ c && c ≤ 'z') || ('0' ≤ c && c ≤ '9') || c = '-' || c = '_'

structure ProjectSlug where
  text : Text
  valid : (text ≠ [] && text.all isSlugCharacter) = true
  deriving DecidableEq

inductive ProjectSlugError where
  | invalid
  deriving DecidableEq, Repr

def ProjectSlug.parse (input : Text) : Except ProjectSlugError ProjectSlug :=
  if h : (input ≠ [] && input.all isSlugCharacter) = true then .ok ⟨input, h⟩ else .error .invalid

theorem ProjectSlug.parse_eq_ok {input : Text} {slug : ProjectSlug} :
    ProjectSlug.parse input = .ok slug ↔ slug.text = input := by
  unfold ProjectSlug.parse
  split
  · rw [Except.ok.injEq, ProjectSlug.mk.injEq]
    exact eq_comm
  · rename_i h
    simp only [reduceCtorEq, false_iff]
    rintro rfl
    exact h slug.valid

inductive StorageIdError where
  | empty
  | invalid (value : Text)
  deriving DecidableEq, Repr

def isStorageIdCharacter (c : Char) : Bool :=
  ('a' ≤ c && c ≤ 'z') || ('A' ≤ c && c ≤ 'Z') || ('0' ≤ c && c ≤ '9') || c = '.' || c = '_' ||
    c = '-'

structure StorageId where
  text : Text
  valid : (trim text ≠ [] && (trim text = text && (trim text).all isStorageIdCharacter)) = true
  deriving DecidableEq

namespace StorageId

def new (value : Text) : Except StorageIdError StorageId :=
  if trim value = [] then .error .empty
  else if h : (trim value ≠ [] && (trim value = value && (trim value).all isStorageIdCharacter))
      = true then .ok ⟨value, h⟩
  else .error (.invalid value)

@[ext] theorem ext {a b : StorageId} (h : a.text = b.text) : a = b := by
  cases a
  cases b
  simpa using h

theorem text_injective : Function.Injective StorageId.text := fun _ _ h => ext h

instance : LinearOrder StorageId := LinearOrder.lift' StorageId.text text_injective

def main : StorageId := ⟨"main".toList, by decide⟩

end StorageId

instance objectKey_lawfulBEq : LawfulBEq (StorageId × Text) := inferInstance

inductive PathObjectKind where
  | nar
  | listing
  | log
  | realisation
  deriving DecidableEq, Repr

inductive DepotView where
  | aggregate
  | project (slug : ProjectSlug)
  deriving DecidableEq

def exampleSlug : ProjectSlug := ⟨"example".toList, by decide⟩

end Project
