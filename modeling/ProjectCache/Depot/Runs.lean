import ProjectCache.Depot.Permitted
import ProjectCache.Depot.Publication

namespace Depot.Server

open Textual Nix Project Calendar Tables Store Db Programs Ingest

abbrev Servers := Pool machine Request Response

abbrev Times := Pool.Schedule machine Request

def publication (pool : Servers) (choice : Choice Request) (e : Env) : Option Publication :=
  match choice with
  | .advance i =>
    match pool.tasks[i]? with
    | some ⟨_, .call c _⟩ => publicationOf e pool.state c
    | _ => none
  | _ => none

section

variable [Base64] [WildMatch]

theorem publishing_next (server : Server) (pool : Servers) (choice : Choice Request) (e : Env) :
    Publishing (publication pool choice e) e.sqliteNow pool.state.db
      (pool.next server.program choice e).state.db := by
  cases choice with
  | submit q => exact .of_eq rfl rfl
  | idle => exact .of_eq rfl rfl
  | advance i =>
    cases ht : pool.tasks[i]? with
    | none =>
      simp only [publication, Pool.next, ht]
      exact .of_eq rfl rfl
    | some task =>
      obtain ⟨q, rest⟩ := task
      cases rest with
      | done r =>
        simp only [publication, Pool.next, ht]
        exact .of_eq rfl rfl
      | call c resume =>
        simp only [publication, Pool.next, ht]
        exact answer_publishing c _ _

end

theorem publication_atCall {pool : Servers} {choice : Choice Request} {e : Env} {p : Publication}
    (h : p ∈ publication pool choice e) :
    ∃ i q resume, choice = .advance i ∧ pool.AtCall i q
      (.publishBuild p.projectId p.refName p.buildId p.finalizedAt) resume := by
  unfold publication at h
  split at h
  · rename_i i
    split at h
    · rename_i q c resume ht
      obtain rfl := mem_publicationOf h
      exact ⟨i, q, resume, rfl, ht⟩
    · cases h
  · cases h

def nextCall (pool : Servers) (choice : Choice Request) : Option Call :=
  match choice with
  | .advance i =>
    match pool.tasks[i]? with
    | some ⟨_, .call c _⟩ => some c
    | _ => none
  | _ => none

theorem nextCall_of_atCall {pool : Servers} {i : Nat} {q : Request} {c : Call}
    {resume : Except Error c.Reply → Action Response} (h : pool.AtCall i q c resume) :
    nextCall pool (.advance i) = some c := by
  simp only [nextCall]
  rw [h]

structure ServerRun where
  server : Server
  start : World
  schedule : Times

structure FreshRun extends ServerRun where
  empty : start.db = {}

theorem nothing_stored : (⟨{}, fun _ _ => none⟩ : World).db = {} := rfl

namespace ServerRun

variable [Base64] [WildMatch] (r : ServerRun)

def pool (n : Nat) : Servers := Pool.run r.server.program ⟨r.start, []⟩ r.schedule n

def world (n : Nat) : World := (r.pool n).state

def db (n : Nat) : Database := (r.world n).db

def publishes (n : Nat) : Option Publication :=
  publication (r.pool n) (r.schedule.choice n) (r.schedule.env n)

def call (n : Nat) : Option Call := nextCall (r.pool n) (r.schedule.choice n)

def Happens (i n : Nat) (event : Prog.Event Interface) : Prop :=
  Pool.Happens r.server.program ⟨r.start, []⟩ r.schedule i n event

def Works (i n : Nat) (q : Request) : Prop :=
  ∃ rest, (r.pool n).tasks[i]? = some ⟨q, rest⟩ ∧ Task.running ⟨q, rest⟩ = true

variable {r}

theorem publishing (n : Nat) :
    Publishing (r.publishes n) (r.schedule.env n).sqliteNow (r.db n) (r.db (n + 1)) :=
  publishing_next _ _ _ _

theorem moves (n : Nat) : (r.pool n).Moves r.server.program (r.schedule.choice n)
    (r.schedule.env n) (r.pool (n + 1)) := Pool.moves_next _ _ _

theorem changed_by_call (n : Nat) :
    r.world (n + 1) = r.world n ∨
      ∃ c, r.call n = some c ∧ r.world (n + 1) = (answer c (r.schedule.env n) (r.world n)).1 := by
  have hm := r.moves n
  unfold world call
  generalize r.pool n = a, r.pool (n + 1) = b at hm
  cases hm with
  | submit q h => exact Or.inl rfl
  | advance i q c resume h hc =>
    rw [h]
    exact Or.inr ⟨c, nextCall_of_atCall hc, rfl⟩
  | stay => exact Or.inl rfl

theorem grows_le {m n : Nat} (h : m ≤ n) : Grows (r.db m) (r.db n) :=
  Pool.run_related (M := machine) (fun v w => Grows v.db w.db) (fun _ => Grows.refl _)
    Grows.trans answer_grows h

theorem grows (n : Nat) : Grows (r.db n) (r.db (n + 1)) := grows_le (Nat.le_succ n)

theorem within (n : Nat) : (r.pool n).Within (Makes r.server) :=
  Pool.within_run r.server.program_uses (by simp [Pool.Within]) n

theorem history {n i : Nat} {q : Request} {p : Action Response}
    (h : (r.pool n).tasks[i]? = some ⟨q, p⟩) :
    ∃ events : List (Nat × Prog.Event Interface),
      (r.server.program q).Follows (events.map Prod.snd) p ∧
      (events.map Prod.fst).Pairwise (· < ·) ∧ ∀ x ∈ events, x.1 < n ∧ r.Happens i x.1 x.2 :=
  Pool.history rfl h

end ServerRun

section Examples

def exampleServer : Server where
  storeDir := StoreDir.defaultNix
  storageCatalog := ⟨.main, [⟨.main, .filesystem⟩], by decide, by decide⟩

def helloPayload : NarInfoPayload where
  storePath := "/nix/store/26xbg1ndr7hbcncrlf9nhx5is2b25d13-hello-2.12.1".toList
  url := "nar/020ay2q1av2xs4n842rb3d7vz8qms1dcb87a5yd6azaci20x11lz.nar.zst".toList
  compression := "zstd".toList
  narHash := "sha256:020ay2q1av2xs4n842rb3d7vz8qms1dcb87a5yd6azaci20x11lz".toList
  narSize := 226560
  references := []
  deriver := none
  signatures := []
  ca := none

def noon : CivilTime := .newYear 2030 12

def moment (n : Nat) : Env :=
  { Env.quiet noon (BitVec.ofNat 128 n) with
    now := ⟨noon, n % 1000000000, Nat.mod_lt _ (by decide)⟩ }

def advances (i count : Nat) : List (Choice Request) := List.replicate count (.advance i)

def scripted (script : List (Choice Request)) : FreshRun where
  server := exampleServer
  start := ⟨{}, fun _ _ => none⟩
  schedule := { choice := fun n => script.getD n .idle, env := moment }
  empty := nothing_stored

def uploadedScript : List (Choice Request) :=
  [.submit (.insertProject exampleSlug "Example".toList true .main)] ++ advances 0 2 ++
  [.submit (.beginBuild exampleSlug.text "main".toList none)] ++ advances 1 4 ++
  [.submit (.registerPaths 5 [helloPayload])] ++ advances 2 8 ++
  [.submit (.uploadObject 5 helloHash helloPayload.url [1, 2, 3, 4, 5])] ++ advances 3 8

end Examples

end Depot.Server
