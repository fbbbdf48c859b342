import ProjectCache.Depot.Runs

namespace Depot.Server

open Textual Nix Project Calendar Tables Store Db Programs Ingest

structure Turn where
  request : Request
  env : Nat → Env

structure SerialRun where
  server : Server
  start : World
  turns : Nat → Turn

structure FreshSerialRun extends SerialRun where
  empty : start.db = {}

namespace SerialRun

variable [Base64] [WildMatch] (r : SerialRun)

def turn (n : Nat) (w : World) : World × Except Error Response :=
  machine.exec (r.server.program (r.turns n).request) (r.turns n).env w

def world : Nat → World
  | 0 => r.start
  | n + 1 => (r.turn n (world n)).1

def db (n : Nat) : Database := (r.world n).db

def request (n : Nat) : Request := (r.turns n).request

def response (n : Nat) : Except Error Response := (r.turn n (r.world n)).2

variable {r}

theorem of_wp (post : Except Error Response → World → Prop) {admits : Env → Prop} {n : Nat}
    (h : machine.wp admits post (r.server.program (r.request n)) (r.world n))
    (he : ∀ k, admits ((r.turns n).env k)) : post (r.response n) (r.world (n + 1)) :=
  Machine.exec_of_wp h he

theorem of_wp_any (post : Except Error Response → World → Prop) {n : Nat}
    (h : machine.wp (fun _ => True) post (r.server.program (r.request n)) (r.world n)) :
    post (r.response n) (r.world (n + 1)) := of_wp post h (fun _ => trivial)

theorem grows (n : Nat) : Grows (r.db n) (r.db (n + 1)) :=
  of_wp_any (fun _ v => Grows (r.db n) v.db)
    (wp_of_uses (fun v => Grows (r.db n) v.db) (r.server.program_uses _)
    (fun c e v _ hv => hv.trans (answer_grows c e v)) (Grows.refl _))

theorem grows_le {m n : Nat} (h : m ≤ n) : Grows (r.db m) (r.db n) := by
  induction n, h using Nat.le_induction with
  | base => exact Grows.refl _
  | succ n _ ih => exact ih.trans (grows n)

end SerialRun

theorem eq_ok_of_toOption {E A : Type} {x : Except E A} {a : A} (h : x.toOption = some a) :
    x = .ok a := by
  cases x with
  | error e => cases h
  | ok b =>
    cases h
    rfl

theorem exists_error_of_toOption {E A : Type} {x : Except E A} (h : x.toOption = none) :
    ∃ e, x = .error e := by
  cases x with
  | error e => exact ⟨e, rfl⟩
  | ok a => cases h

def inTurn (requests : List Request) : FreshSerialRun where
  server := exampleServer
  start := ⟨{}, fun _ _ => none⟩
  turns := fun n =>
    { request := requests.getD n (.deletePin [] none)
      env := fun k => moment (100 * n + k) }
  empty := nothing_stored

end Depot.Server
