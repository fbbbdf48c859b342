import ProjectCache.Lib.Discipline
import ProjectCache.Store.Filesystem

namespace Filesystem

open Textual Project DepotPath FilePaths FileSystem Store Programs

structure NarObjectPath where
  text : Text
  nar : ∃ digest c, parseDepotObjectPath text = some (.nar digest c)

inductive Request where
  | putStream (o : NarObjectPath) (reader : UploadReader)
  | putBytes (o : NarObjectPath) (bytes : BlobBytes)
  | delete (o : NarObjectPath)
  | head (o : NarObjectPath)
  | getBytes (o : NarObjectPath) (fuel : Nat)

inductive Answer where
  | written (count : Nat)
  | stored
  | deleted
  | metadata (found : Option BlobMetadata)
  | bytes (found : Option BlobBytes)

namespace NarObjectPath

def file (o : NarObjectPath) : Text := o.text.drop 4

theorem file_eq (o : NarObjectPath) : ∃ digest c, o.text = "nar/".toList ++ digest ++
    NarCompression.fileSuffix c ∧ o.file = digest ++ c.fileSuffix ∧ '/' ∉ o.file := by
  obtain ⟨digest, c, h⟩ := o.nar
  obtain ⟨-, ha, ht⟩ := parseDepotObjectPath_eq_some h
  have hfile : o.file = digest ++ c.fileSuffix := by rw [file, ht]; rfl
  cases ha with
  | nar digest c hb =>
    refine ⟨digest, c, ht, hfile, ?_⟩
    rw [hfile, List.mem_append, not_or]
    exact ⟨hb.not_mem (by decide), by cases c <;> decide⟩

theorem text_eq (o : NarObjectPath) : o.text = "nar".toList ++ '/' :: o.file := by
  obtain ⟨digest, c, ht, hf, -⟩ := o.file_eq
  rw [ht, hf, List.append_assoc]
  rfl

theorem file_injective {o o' : NarObjectPath} (h : o.file = o'.file) : o = o' := by
  have htext : o.text = o'.text := by rw [text_eq o, text_eq o', h]
  cases o
  cases o'
  cases htext
  rfl

theorem segments_eq (o : NarObjectPath) : segments o.text = ["nar".toList, o.file] := by
  obtain ⟨digest, c, -, hf, hs⟩ := o.file_eq
  have hsplit : ("nar".toList ++ '/' :: o.file).splitOn '/' =
      "nar".toList :: o.file.splitOn '/' :=
    List.splitOn_append_cons_self_of_not_mem (by decide) _
  have hne : o.file ≠ [] := by
    rw [hf]
    exact List.append_ne_nil_of_right_ne_nil _ (by cases c <;> decide)
  rw [segments, text_eq, hsplit, List.splitOn_eq_singleton hs]
  rw [List.filter_cons_of_pos (by decide), List.filter_cons_of_pos (by simpa using hne),
    List.filter_nil]

end NarObjectPath

namespace Request

def path : Request → NarObjectPath
  | putStream o _ | putBytes o _ | delete o | head o | getBytes o _ => o

def program (storage : Store.FilesystemStorage) : Request → Action Answer
  | putStream o reader => .written <$> FilesystemStorage.putStream storage o.text reader
  | putBytes o bytes => (fun _ => .stored) <$> FilesystemStorage.putBytes storage o.text bytes
  | delete o => (fun _ => .deleted) <$> FilesystemStorage.delete storage o.text
  | head o => .metadata <$> FilesystemStorage.head storage o.text
  | getBytes o fuel => .bytes <$> FilesystemStorage.getBytes storage fuel o.text

def IsPut : Request → Prop
  | putStream _ _ | putBytes _ _ => True
  | _ => False

def Puts : Request → BlobBytes → Prop
  | putStream _ reader, body => reader.broken = none ∧ reader.chunks.flatten = body
  | putBytes _ bytes, body => bytes = body
  | _, _ => False

end Request

def narDirectory (storage : Store.FilesystemStorage) : PathBuf :=
  storage.root ++ [.normal "nar".toList]

def narPath (storage : Store.FilesystemStorage) (name : Text) : PathBuf :=
  narDirectory storage ++ [.normal name]

def tempName (file : Text) (uuid : Uuid) : Text :=
  '.' :: (file ++ '.' :: (hyphenated uuid ++ ".tmp".toList))

section Names

variable {storage : Store.FilesystemStorage}

theorem narPath_injective {name name' : Text} (h : narPath storage name = narPath storage name') :
    name = name' :=
  Component.normal.inj (List.singleton_inj.mp (List.append_inj' h rfl).2)

theorem narPath_not_above (name : Text) : ¬ narPath storage name <+: narDirectory storage := by
  intro h
  have hlen := h.length_le
  simp [narPath] at hlen

theorem narPath_parent (name : Text) :
    (narPath storage name).parent = some (narDirectory storage) :=
  PathBuf.parent_concat _ _

theorem temporaryPathFor_narPath (name : Text) (uuid : Uuid) :
    Store.FilesystemStorage.temporaryPathFor (narPath storage name) uuid =
      narPath storage (tempName name uuid) :=
  Store.FilesystemStorage.temporaryPathFor_concat _ _ _

theorem resolve_eq (o : NarObjectPath) :
    FilesystemStorage.resolve storage o.text = .done (.ok (narPath storage o.file)) := by
  obtain ⟨digest, c, h⟩ := o.nar
  have hnames : storage.root ++ names (segments o.text) = narPath storage o.file := by
    rw [o.segments_eq]
    simp [names, narPath, narDirectory]
  rw [FilesystemStorage.resolve, storage.resolveObjectPath_eq h, hnames]
  rfl

theorem tempName_ne_file (file : Text) (uuid : Uuid) (o : NarObjectPath) :
    tempName file uuid ≠ o.file := by
  obtain ⟨digest, c, -, hf, -⟩ := o.file_eq
  intro h
  have hlast := Store.FilesystemStorage.temporary_last file uuid
  rw [tempName] at h
  rw [h, hf] at hlast
  have hc : ∃ d, c.fileSuffix.getLast? = some d ∧ d ≠ 'p' := by
    cases c
    · exact ⟨'r', rfl, by decide⟩
    · exact ⟨'t', rfl, by decide⟩
    · exact ⟨'z', rfl, by decide⟩
    · exact ⟨'2', rfl, by decide⟩
  obtain ⟨d, hd, hne⟩ := hc
  rw [getLast?_append_text hd] at hlast
  exact hne (Option.some.inj hlast)

theorem tempName_uuid {file file' : Text} {uuid uuid' : Uuid}
    (h : tempName file uuid = tempName file' uuid') : uuid = uuid' := by
  have htail : (hyphenated uuid ++ ".tmp".toList) = hyphenated uuid' ++ ".tmp".toList := by
    have hsplit : (file ++ ['.']) ++ (hyphenated uuid ++ ".tmp".toList) =
        (file' ++ ['.']) ++ (hyphenated uuid' ++ ".tmp".toList) := by
      simpa [tempName] using h
    refine (List.append_inj' hsplit ?_).2
    simp [hyphenated_length]
  exact hyphenated_injective (List.append_cancel_right htail)

end Names

inductive Hold where
  | nothing
  | absent (name : Text)
  | writing (name : Text) (file : Handle) (bytes : BlobBytes)
  | leaving (name : Text)
  | abandoned (name : Text)
  | published
  | reading (file : Handle) (bytes : BlobBytes)
  | whole (bytes : BlobBytes)

def Hold.unfinished : Hold → Option Text
  | .writing name _ _ | .leaving name => some name
  | _ => none

inductive WritesTo (storage : Store.FilesystemStorage) (q : Request) (name : Text) (file : Handle) :
    FileSystem.Call → Prop
  | write (bytes : BlobBytes) : WritesTo storage q name file (.write file bytes)
  | flush : WritesTo storage q name file (.flush file)
  | syncData : WritesTo storage q name file (.syncData file)
  | rename : WritesTo storage q name file
    (.rename (narPath storage name) (narPath storage q.path.file))

inductive Step (storage : Store.FilesystemStorage) (q : Request) :
    Hold → Prog.Event Interface → Hold → Prop
  | createDirAll (reply) :
    Step storage q .nothing ⟨.file (.createDirAll (narDirectory storage)), reply⟩ .nothing
  | metadata (reply) :
    Step storage q .nothing ⟨.file (.metadata (narPath storage q.path.file)), reply⟩ .nothing
  | delete (reply) (hq : ¬ q.IsPut) :
    Step storage q .nothing ⟨.file (.removeFile (narPath storage q.path.file)), reply⟩ .nothing
  | drew (uuid : Uuid) :
    Step storage q .nothing ⟨.nowV7, .ok uuid⟩ (.absent (tempName q.path.file uuid))
  | notDrawn (x : Error) : Step storage q .nothing ⟨.nowV7, .error x⟩ .nothing
  | created (name : Text) (file : Handle) :
    Step storage q (.absent name) ⟨.file (.create (narPath storage name)), .ok file⟩
      (.writing name file [])
  | notCreated (name : Text) (x : Error) :
    Step storage q (.absent name) ⟨.file (.create (narPath storage name)), .error x⟩ (.leaving name)
  | wrote (name : Text) (file : Handle) (bytes more : BlobBytes) :
    Step storage q (.writing name file bytes) ⟨.file (.write file more), .ok ()⟩
      (.writing name file (bytes ++ more))
  | flushed (name : Text) (file : Handle) (bytes : BlobBytes) :
    Step storage q (.writing name file bytes) ⟨.file (.flush file), .ok ()⟩
      (.writing name file bytes)
  | synced (name : Text) (file : Handle) (bytes : BlobBytes) :
    Step storage q (.writing name file bytes) ⟨.file (.syncData file), .ok ()⟩
      (.writing name file bytes)
  | renamed (name : Text) (file : Handle) (bytes : BlobBytes) (hp : q.Puts bytes) :
    Step storage q (.writing name file bytes)
      ⟨.file (.rename (narPath storage name) (narPath storage q.path.file)), .ok ()⟩ .published
  | failed (name : Text) (file : Handle) (bytes : BlobBytes) (c : FileSystem.Call)
    (hc : WritesTo storage q name file c) (x : Error) :
    Step storage q (.writing name file bytes) ⟨.file c, .error x⟩ (.leaving name)
  | removed (hold : Hold) (name : Text) (hn : hold.unfinished = some name) :
    Step storage q hold ⟨.file (.removeFile (narPath storage name)), .ok ()⟩ (.absent name)
  | missing (hold : Hold) (name : Text) (hn : hold.unfinished = some name) :
    Step storage q hold ⟨.file (.removeFile (narPath storage name)), .error (.io .notFound)⟩
      (.absent name)
  | notRemoved (hold : Hold) (name : Text) (hn : hold.unfinished = some name) (x : Error)
    (hx : x ≠ .io .notFound) :
    Step storage q hold ⟨.file (.removeFile (narPath storage name)), .error x⟩ (.abandoned name)
  | opened (file : Handle) :
    Step storage q .nothing ⟨.file (.openFile (narPath storage q.path.file)), .ok file⟩
      (.reading file [])
  | notOpened (x : Error) :
    Step storage q .nothing ⟨.file (.openFile (narPath storage q.path.file)), .error x⟩ .nothing
  | read (file : Handle) (bytes chunk : BlobBytes) (hc : chunk ≠ []) :
    Step storage q (.reading file bytes) ⟨.file (.read file bytes.length), .ok chunk⟩
      (.reading file (bytes ++ chunk))
  | readAll (file : Handle) (bytes : BlobBytes) :
    Step storage q (.reading file bytes) ⟨.file (.read file bytes.length), .ok []⟩ (.whole bytes)
  | notRead (file : Handle) (bytes : BlobBytes) (x : Error) :
    Step storage q (.reading file bytes) ⟨.file (.read file bytes.length), .error x⟩ .nothing

def Hold.Idle : Hold → Prop
  | .writing _ _ _ | .leaving _ | .published | .whole _ => False
  | _ => True

def Ends : Except Error Answer → Hold → Prop
  | .error _, hold => hold.Idle
  | .ok (.bytes (some bytes)), hold => hold = .whole bytes
  | .ok _, _ => True

def Published {A : Type} (name : Text) : Except Error A → Hold → Prop
  | .ok _, hold => hold = .published
  | .error _, hold => hold.unfinished = some name

section Programs

variable {storage : Store.FilesystemStorage} {q : Request} {A : Type}

theorem keeps_perform {c : FileSystem.Call} {post : Except Error c.Reply → Hold → Prop}
    {hold : Hold}
    (h : ∀ r, ∃ next, Step storage q hold ⟨.file c, r⟩ next ∧ post r next) :
    (perform c).Keeps (Step storage q) post hold := h

theorem keeps_renameTemp {name : Text} {file : Handle} {bytes : BlobBytes} (hp : q.Puts bytes) :
    (FilesystemStorage.renameTemp (narPath storage name) (narPath storage q.path.file)).Keeps
      (Step storage q) (Published name) (.writing name file bytes) := by
  refine Prog.Keeps.mapError (keeps_perform (fun r => ?_))
  cases r with
  | ok u => exact ⟨_, .renamed name file bytes hp, rfl⟩
  | error x => exact ⟨_, .failed name file bytes _ .rename x, rfl⟩

theorem keeps_writeFile {name : Text} (bytes : BlobBytes) :
    (writeFile (narPath storage name) bytes).Keeps (Step storage q)
      (onOk (fun _ hold => ∃ file, hold = .writing name file bytes)
        (fun (_ : Except Error Unit) hold => hold.unfinished = some name)) (.absent name) := by
  refine Prog.Keeps.bind (keeps_perform (fun r => ?_))
  cases r with
  | error x => exact ⟨_, .notCreated name x, rfl⟩
  | ok file =>
    refine ⟨_, .created name file, keeps_perform (fun r => ?_)⟩
    cases r with
    | ok u => exact ⟨_, .wrote name file [] bytes, ⟨file, by rw [List.nil_append]⟩⟩
    | error x => exact ⟨_, .failed name file [] _ (.write bytes) x, rfl⟩

theorem keeps_writeBytes {name : Text} {bytes : BlobBytes} (hp : q.Puts bytes) :
    (FilesystemStorage.writeBytes (narPath storage name) (narPath storage q.path.file) bytes).Keeps
      (Step storage q) (Published name) (.absent name) := by
  refine Prog.Keeps.bind (Prog.Keeps.mapError ((keeps_writeFile bytes).mono (fun r hold h => ?_)))
  cases r with
  | error x => exact h
  | ok u =>
    obtain ⟨file, rfl⟩ := h
    exact keeps_renameTemp hp

theorem keeps_copyFrom {name : Text} {file : Handle} (broken : Option Error) (written : Nat)
    (chunks : List BlobBytes) (bytes : BlobBytes) :
    (copyFrom broken file written chunks).Keeps (Step storage q)
      (onOk (fun _ hold => broken = none ∧ hold = .writing name file (bytes ++ chunks.flatten))
        (fun (_ : Except Error Unit) hold => hold.unfinished = some name))
      (.writing name file bytes) := by
  induction chunks generalizing written bytes with
  | nil =>
    cases broken with
    | some error => rfl
    | none => exact ⟨rfl, by simp⟩
  | cons chunk chunks ih =>
    refine Prog.Keeps.bind (keeps_perform (fun r => ?_))
    cases r with
    | error x => exact ⟨_, .failed name file bytes _ (.write chunk) x, rfl⟩
    | ok u =>
      refine ⟨_, .wrote name file bytes chunk, ?_⟩
      refine (ih (written + chunk.length) (bytes ++ chunk)).mono (fun r hold h => ?_)
      cases r with
      | ok n => simpa using h
      | error x => exact h

theorem keeps_writeStream {name : Text} {reader : UploadReader}
    (hp : reader.broken = none → q.Puts reader.chunks.flatten) :
    (FilesystemStorage.writeStream (narPath storage name) (narPath storage q.path.file)
      reader).Keeps (Step storage q) (Published name) (.absent name) := by
  refine Prog.Keeps.bind (Prog.Keeps.mapError (keeps_perform (fun r => ?_)))
  cases r with
  | error x => exact ⟨_, .notCreated name x, rfl⟩
  | ok file =>
  refine ⟨_, .created name file, Prog.Keeps.bind (Prog.Keeps.mapError
    ((keeps_copyFrom reader.broken 0 reader.chunks []).mono (fun r hold h => ?_)))⟩
  cases r with
  | error x => exact h
  | ok written =>
  obtain ⟨hb, rfl⟩ := h
  rw [List.nil_append]
  refine Prog.Keeps.bind (Prog.Keeps.mapError (keeps_perform (fun r => ?_)))
  cases r with
  | error x => exact ⟨_, .failed name file _ _ .flush x, rfl⟩
  | ok u =>
  refine ⟨_, .flushed name file _, Prog.Keeps.bind (Prog.Keeps.mapError
    (keeps_perform (fun r => ?_)))⟩
  cases r with
  | error x => exact ⟨_, .failed name file _ _ .syncData x, rfl⟩
  | ok u =>
  refine ⟨_, .synced name file _, Prog.Keeps.bind ((keeps_renameTemp (hp hb)).mono
    (fun r hold h => ?_))⟩
  cases r with
  | ok u => exact h
  | error x => exact h

theorem keeps_cleaned {name : Text} {result : Except Error A} {hold : Hold}
    (h : Published name result hold) :
    (FilesystemStorage.cleaned (narPath storage name) result).Keeps (Step storage q)
      (onOk (fun _ _ => True) (fun (_ : Except Error Unit) hold => hold.Idle)) hold := by
  cases result with
  | ok a => trivial
  | error error =>
    refine Prog.Keeps.bind (Prog.Keeps.bind (Prog.Keeps.attempt (keeps_perform (fun r => ?_))))
    cases r with
    | ok u => exact ⟨_, .removed hold name h, trivial⟩
    | error x =>
      by_cases hx : x = .io .notFound
      · subst hx
        exact ⟨_, .missing hold name h, trivial⟩
      · exact ⟨_, .notRemoved hold name h x hx, trivial⟩

theorem keeps_prepareWritePath {post : Except Error (PathBuf × PathBuf) → Hold → Prop}
    (hok : ∀ uuid, post (.ok (narPath storage q.path.file,
      narPath storage (tempName q.path.file uuid))) (.absent (tempName q.path.file uuid)))
    (herror : ∀ x, post (.error x) .nothing) :
    (FilesystemStorage.prepareWritePath storage q.path.text).Keeps (Step storage q) post
      .nothing := by
  refine Prog.Keeps.bind ?_
  rw [resolve_eq]
  change Prog.Keeps (Step storage q) post _ .nothing
  rw [narPath_parent]
  refine Prog.Keeps.bind (Prog.Keeps.mapError (keeps_perform (fun r => ?_)))
  cases r with
  | error x => exact ⟨_, .createDirAll _, herror _⟩
  | ok u =>
    refine ⟨_, .createDirAll _, fun r => ?_⟩
    cases r with
    | error x => exact ⟨_, .notDrawn x, herror x⟩
    | ok uuid =>
      refine ⟨_, .drew uuid, ?_⟩
      have h := hok uuid
      rw [← temporaryPathFor_narPath] at h
      exact h

theorem keeps_put (q : Request) (write : PathBuf → PathBuf → Action A) (answer : A → Answer)
    (ha : ∀ a hold, Ends (.ok (answer a)) hold)
    (hw : ∀ name, (write (narPath storage name) (narPath storage q.path.file)).Keeps
      (Step storage q) (Published name) (.absent name)) :
    (answer <$> (do
      let (finalPath, tempPath) ← FilesystemStorage.prepareWritePath storage q.path.text
      let result ← (write tempPath finalPath).attempt
      FilesystemStorage.cleaned tempPath result)).Keeps (Step storage q) Ends .nothing := by
  refine Prog.Keeps.bind (Prog.Keeps.bind (keeps_prepareWritePath (fun uuid => ?_)
    (fun x => trivial)))
  refine Prog.Keeps.bind (Prog.Keeps.attempt ((hw _).mono (fun r hold h => ?_)))
  refine (keeps_cleaned h).mono (fun r hold h => ?_)
  cases r with
  | ok a => exact ha a hold
  | error x => exact h

theorem keeps_readToEnd {file : Handle} (bytes : BlobBytes) (fuel : Nat) :
    (readToEnd file bytes fuel).Keeps (Step storage q)
      (onOk (fun bytes hold => hold = .whole bytes)
        (fun (_ : Except Error Unit) hold => hold.Idle)) (.reading file bytes) := by
  induction fuel generalizing bytes with
  | zero => trivial
  | succ fuel ih =>
    refine Prog.Keeps.bind (keeps_perform (fun r => ?_))
    cases r with
    | error x => exact ⟨_, .notRead file bytes x, trivial⟩
    | ok chunk =>
      change ∃ next, _ ∧ Prog.Keeps _ _
        (if chunk = [] then .done (.ok bytes) else readToEnd file (bytes ++ chunk) fuel) next
      by_cases hc : chunk = []
      · subst hc
        exact ⟨_, .readAll file bytes, rfl⟩
      · rw [if_neg hc]
        exact ⟨_, .read file bytes chunk hc, ih (bytes ++ chunk)⟩

theorem keeps_readFile (fuel : Nat) :
    (readFile (narPath storage q.path.file) fuel).Keeps (Step storage q)
      (onOk (fun bytes hold => hold = .whole bytes)
        (fun (_ : Except Error Unit) hold => hold.Idle)) .nothing := by
  refine Prog.Keeps.bind (keeps_perform (fun r => ?_))
  cases r with
  | error x => exact ⟨_, .notOpened x, trivial⟩
  | ok file =>
    refine ⟨_, .opened file, (keeps_readToEnd [] fuel).mono (fun r hold h => ?_)⟩
    cases r with
    | ok bytes => exact h
    | error x => exact h

theorem keeps_program (q : Request) :
    (q.program storage).Keeps (Step storage q) Ends .nothing := by
  cases q with
  | putStream o reader =>
    exact keeps_put (.putStream o reader)
      (fun tempPath finalPath => FilesystemStorage.writeStream tempPath finalPath reader) .written
      (fun _ _ => trivial) (fun name => keeps_writeStream (fun hb => ⟨hb, rfl⟩))
  | putBytes o bytes =>
    exact keeps_put (.putBytes o bytes)
      (fun tempPath finalPath => FilesystemStorage.writeBytes tempPath finalPath bytes)
      (fun _ => .stored) (fun _ _ => trivial) (fun name => keeps_writeBytes rfl)
  | delete o =>
    refine Prog.Keeps.bind (Prog.Keeps.bind ?_)
    rw [resolve_eq]
    refine Prog.Keeps.bind (Prog.Keeps.attempt (keeps_perform (fun r => ?_)))
    refine ⟨.nothing, .delete r (fun h => h), ?_⟩
    cases r with
    | ok u => trivial
    | error x => rcases x with (_ | _) | _ | _ | _ <;> trivial
  | head o =>
    refine Prog.Keeps.bind (Prog.Keeps.bind ?_)
    rw [resolve_eq]
    refine Prog.Keeps.bind (Prog.Keeps.attempt (keeps_perform (fun r => ?_)))
    refine ⟨.nothing, .metadata r, ?_⟩
    cases r with
    | ok metadata =>
      obtain ⟨isFile, len⟩ := metadata
      cases isFile <;> trivial
    | error x => rcases x with (_ | _) | _ | _ | _ <;> trivial
  | getBytes o fuel =>
    refine Prog.Keeps.bind (Prog.Keeps.bind ?_)
    rw [resolve_eq]
    refine Prog.Keeps.bind (Prog.Keeps.attempt ?_)
    refine (keeps_readFile (q := .getBytes o fuel) fuel).mono (fun r hold h => ?_)
    cases r with
    | ok bytes => exact h
    | error x =>
      rcases x with (_ | _) | _ | _ | _
      · trivial
      all_goals exact h

end Programs

end Filesystem
