import ProjectCache.Core.Printed
import ProjectCache.Depot.Sequence
import ProjectCache.Read.Service

namespace Vouching

open Textual Nix Project Tables Store Db Programs Narinfo Signing Validation Printed Ingest
  Depot Depot.Server Read SqliteDatabase

def narinfoOf (row : PathInfoRow) : NarInfo where
  storePath := row.storePath
  url := row.url
  compression := row.compression
  narHash := .raw row.narHash
  narSize := row.narSize
  references := row.references
  deriver := row.deriver
  signatures := row.signatures
  ca := row.ca.map NixContentAddress.raw

def pathInfoIn (db : Database) (view : DepotView) (h : StorePathHash) : Option PathInfoRow :=
  match view with
  | .aggregate => db.aggregatePathInfo h
  | .project slug => db.projectPathInfo slug h

def upstreamsIn (db : Database) (view : DepotView) : List UpstreamCache :=
  (match view with
  | .aggregate => db.enabledUpstreams
  | .project slug => db.enabledUpstreamsForProject slug).map UpstreamCacheRow.intoRuntimeConfig

def fetchedText (h : StorePathHash) : List UpstreamCache → (Nat → Env) → Option Text
  | [], _ => none
  | upstream :: rest, es =>
    match (es 0).upstream.fetchNarinfoText upstream h with
    | some text => some text
    | none => fetchedText h rest (fun n => es (n + 1))

section

variable {A B : Type} {es : Nat → Env} {w : World}

theorem exec_perform_bind {c : Call} {f : c.Reply → Action A} {a : A}
    (h : (machine.exec ((Prog.perform (I := Interface) c).bind f) es w).2 = .ok a) :
    ∃ r, (answer c (es 0) w).2 = .ok r ∧
      (machine.exec (f r) (fun n => es (n + 1)) (answer c (es 0) w).1).2 = .ok a := by
  change (machine.exec (Prog.bind (.done (answer c (es 0) w).2) f) (fun n => es (n + 1))
    (answer c (es 0) w).1).2 = .ok a at h
  cases hr : (answer c (es 0) w).2 with
  | ok r =>
    rw [hr] at h
    exact ⟨r, rfl, h⟩
  | error x =>
    rw [hr] at h
    cases h

theorem exec_select_bind {query : Database → B} {f : B → Action A} {a : A}
    (h : (machine.exec ((select query).bind f) es w).2 = .ok a) :
    (machine.exec (f (query w.db)) (fun n => es (n + 1)) w).2 = .ok a := by
  obtain ⟨r, hr, hrest⟩ := exec_perform_bind h
  rcases @answer_select _ query (es 0) w with ha | ⟨x, ha⟩
  · rw [ha] at hr hrest
    cases hr
    exact hrest
  · rw [ha] at hr
    cases hr

theorem exec_fetch {upstream : UpstreamCache} {hash : StorePathHash}
    {f : Option Text → Action A} {a : A}
    (h : (machine.exec ((perform (.fetchNarinfoText upstream hash)).bind f) es w).2 = .ok a) :
    (machine.exec (f ((es 0).upstream.fetchNarinfoText upstream hash)) (fun n => es (n + 1)) w).2 =
      .ok a := by
  obtain ⟨r, hr, hrest⟩ := exec_perform_bind h
  have ha := answer_of_ok hr
  rw [ha] at hr hrest
  cases hr
  exact hrest

theorem pathInfo_of_pathInfoIn {db : Database} {view : DepotView} {h : StorePathHash}
    {row : PathInfoRow} (hrow : pathInfoIn db view h = some row) :
    row ∈ db.pathInfos.rows ∧ row.storePathHash = h := by
  rw [← Database.pathInfo_eq_some]
  cases view with
  | aggregate => exact (Option.filter_eq_some_iff.mp hrow).1
  | project slug => exact (Option.filter_eq_some_iff.mp hrow).1

theorem exec_inflate_bind {row : PathInfoRow} (hrow : row ∈ w.db.pathInfos.rows)
    {f : Option NarInfo → Action A} {a : A}
    (h : (machine.exec ((inflateOptional (some row)).bind f) es w).2 = .ok a) :
    ∃ es', (machine.exec (f (some (narinfoOf row))) es' w).2 = .ok a := by
  have hinfo : w.db.pathInfo row.storePathHash = some row :=
    Database.pathInfo_eq_some.mpr ⟨hrow, rfl⟩
  rw [inflateOptional, Prog.map_eq, Prog.bind_assoc, inflateNarinfo, Prog.bind_eq,
    Prog.bind_assoc] at h
  have h := exec_select_bind h
  rw [Prog.bind_eq, Prog.bind_assoc] at h
  have h := exec_select_bind h
  simp only [Database.pathReferences, Database.pathSignatures, hinfo] at h
  exact ⟨_, h⟩

theorem exec_resolve_bind {view : DepotView} {hash : StorePathHash}
    {f : Option NarInfo → Action A} {a : A}
    (h : (machine.exec ((resolveNarinfo view hash).bind f) es w).2 = .ok a) :
    (∃ row es', pathInfoIn w.db view hash = some row ∧
      (machine.exec (f (some (narinfoOf row))) es' w).2 = .ok a) ∨
    pathInfoIn w.db view hash = none ∧
      (machine.exec (f none) (fun n => es (n + 1)) w).2 = .ok a := by
  have hnext : (machine.exec ((inflateOptional (pathInfoIn w.db view hash)).bind f)
      (fun n => es (n + 1)) w).2 = .ok a := by
    cases view with
    | aggregate =>
      rw [resolveNarinfo, getAggregateNarinfo, Prog.bind_eq, Prog.bind_assoc] at h
      exact exec_select_bind h
    | project slug =>
      rw [resolveNarinfo, getProjectNarinfo, Prog.bind_eq, Prog.bind_assoc] at h
      exact exec_select_bind h
  cases hrow : pathInfoIn w.db view hash with
  | none =>
    rw [hrow] at hnext
    exact .inr ⟨rfl, hnext⟩
  | some row =>
    rw [hrow] at hnext
    obtain ⟨es', h'⟩ := exec_inflate_bind (pathInfo_of_pathInfoIn hrow).1 hnext
    exact .inl ⟨row, es', rfl, h'⟩

theorem exec_upstreams_bind {view : DepotView} {f : List UpstreamCache → Action A} {a : A}
    (h : (machine.exec ((upstreamsForView view).bind f) es w).2 = .ok a) :
    (machine.exec (f (upstreamsIn w.db view)) (fun n => es (n + 1)) w).2 = .ok a := by
  cases view with
  | aggregate =>
    rw [upstreamsForView, Prog.bind_eq, Prog.bind_assoc] at h
    exact exec_select_bind h
  | project slug =>
    rw [upstreamsForView, Prog.bind_eq, Prog.bind_assoc] at h
    exact exec_select_bind h

theorem exec_fetch_bind {hash : StorePathHash} {upstreams : List UpstreamCache}
    {f : Option Text → Action A} {a : A}
    (h : (machine.exec ((fetchNarinfo hash upstreams).bind f) es w).2 = .ok a) :
    ∃ es', (machine.exec (f (fetchedText hash upstreams es)) es' w).2 = .ok a := by
  induction upstreams generalizing es with
  | nil => exact ⟨es, h⟩
  | cons upstream rest ih =>
    rw [fetchNarinfo, Prog.bind_eq, Prog.bind_assoc] at h
    have h := exec_fetch h
    rw [fetchedText]
    cases hfound : (es 0).upstream.fetchNarinfoText upstream hash with
    | some text =>
      rw [hfound] at h
      exact ⟨_, h⟩
    | none =>
      rw [hfound] at h
      exact ih h

theorem exec_ofExcept_bind {E : Type} {wrap : E → Error} {result : Except E B} {f : B → Action A}
    {a : A} (h : (machine.exec ((ofExcept wrap result).bind f) es w).2 = .ok a) :
    ∃ b, result = .ok b ∧ (machine.exec (f b) es w).2 = .ok a := by
  cases result with
  | ok b => exact ⟨b, rfl, h⟩
  | error x => cases h

end

section

variable [Base64] [Ed25519]

def keysFor (service : ReadService) : DepotView → List NamedSigningKey
  | .aggregate => service.aggregateSigningKey.toList
  | .project project => (service.projectSigningKeys.bind (fun keys => keys project)).toList ++
      service.aggregateSigningKey.toList

inductive Chosen (service : ReadService) (view : DepotView) (h : StorePathHash) (es : Nat → Env)
    (db : Database) : NarInfo → Prop
  | recorded (row : PathInfoRow) : pathInfoIn db view h = some row →
      Chosen service view h es db (narinfoOf row)
  | fetched (text : Text) (n : NarInfo) : pathInfoIn db view h = none →
      fetchedText h (upstreamsIn db view) (fun k => es (k + 2)) = some text →
      parseNarinfo text service.storeDir = .ok n → Chosen service view h es db n

structure Answers (service : ReadService) (view : DepotView) (h : StorePathHash) (es : Nat → Env)
    (db : Database) (n : NarInfo) (signatures : List Text) (text : Text) : Prop where
  chosen : Chosen service view h es db n
  signed : NarInfoSigner.sign ⟨service.storeDir, keysFor service view⟩ n = .ok signatures
  printed : NarInfoRenderer.renderWithSignatures ⟨service.storeDir⟩ n
    (n.signatures ++ signatures) = .ok text

variable {service : ReadService} {view : DepotView} {hash : StorePathHash} {es : Nat → Env}
  {w : World} {n : NarInfo} {text : Text}

omit [Base64] in
theorem exec_keys_bind {A : Type} {f : List NamedSigningKey → Action A} {a : A}
    (h : (machine.exec ((service.signingKeysForView view).bind f) es w).2 = .ok a) :
    ∃ es', (machine.exec (f (keysFor service view)) es' w).2 = .ok a := by
  cases view with
  | aggregate => exact ⟨es, h⟩
  | project project =>
    rw [ReadService.signingKeysForView, Prog.bind_eq, Prog.bind_assoc,
      ReadService.projectSigningKey] at h
    rw [keysFor]
    cases hk : service.projectSigningKeys with
    | none =>
      rw [hk] at h
      exact ⟨es, h⟩
    | some keys =>
      rw [hk] at h
      exact ⟨_, exec_select_bind h⟩

theorem signed_ok {A : Type} {f : Text → Action A} {a : A}
    (h : (machine.exec ((service.renderSignedNarinfo view n).bind f) es w).2 = .ok a) :
    ∃ signatures text es',
      NarInfoSigner.sign ⟨service.storeDir, keysFor service view⟩ n = .ok signatures ∧
      NarInfoRenderer.renderWithSignatures ⟨service.storeDir⟩ n (n.signatures ++ signatures) =
        .ok text ∧ (machine.exec (f text) es' w).2 = .ok a := by
  rw [ReadService.renderSignedNarinfo, Prog.bind_eq, Prog.bind_assoc] at h
  obtain ⟨es', h⟩ := exec_keys_bind h
  rw [Prog.bind_eq, Prog.bind_assoc] at h
  obtain ⟨signatures, hs, h⟩ := exec_ofExcept_bind h
  obtain ⟨text, ht, h⟩ := exec_ofExcept_bind h
  exact ⟨signatures, text, es', hs, ht, h⟩

theorem exists_answers
    (h : (machine.exec (service.renderNarinfo view hash) es w).2 = .ok (some text)) :
    ∃ n signatures, Answers service view hash es w.db n signatures text := by
  rw [ReadService.renderNarinfo, Prog.bind_eq] at h
  rcases exec_resolve_bind h with ⟨row, es', hrow, h⟩ | ⟨hnone, h⟩
  · obtain ⟨signatures, text', es', hs, ht, h⟩ := signed_ok h
    cases h
    exact ⟨_, signatures, .recorded row hrow, hs, ht⟩
  · have h := exec_upstreams_bind h
    obtain ⟨es', h⟩ := exec_fetch_bind h
    cases hfound : fetchedText hash (upstreamsIn w.db view) (fun k => es (k + 2)) with
    | none =>
      rw [hfound] at h
      cases h
    | some found =>
      rw [hfound] at h
      obtain ⟨n, hn, h⟩ := exec_ofExcept_bind h
      obtain ⟨signatures, text', es', hs, ht, h⟩ := signed_ok h
      cases h
      exact ⟨n, signatures, .fetched found n hnone hfound hn, hs, ht⟩

end

section

variable [Base64] [WildMatch] {r : ServerRun}

theorem pathInfos_step {n : Nat} {row : PathInfoRow} (h : row ∈ (r.db (n + 1)).pathInfos.rows) :
    row ∈ (r.db n).pathInfos.rows ∨ ∃ (path : NarInfoPayload) (hash : StorePathHash)
      (narHash : NormalizedNarHash), Accepted r.server.storeDir path.intoNarinfo hash ∧
        row = pathInfoRow path.intoNarinfo hash narHash := by
  have hwithin := ServerRun.within (r := r) n
  have hm := ServerRun.moves (r := r) n
  unfold ServerRun.db ServerRun.world at h ⊢
  generalize r.pool n = a, r.pool (n + 1) = b at hm h hwithin
  cases hm with
  | submit q hq => exact .inl h
  | stay => exact .inl h
  | advance i q c resume hi hc =>
    have hmakes := hwithin.atCall hc
    simp only at h
    cases c with
    | insertPathInfo new =>
      cases hmakes with
      | reads hr => cases hr
      | insertPathInfo hp hv hn =>
        rcases answer_state (.insertPathInfo (pathInfoRow _ _ _)) (r.schedule.env n) a.state with
          ha | ha
        · exact .inl (ha ▸ h)
        · rw [ha] at h
          rcases Table.mem_insertOrIgnore.mp h with hold | ⟨-, rfl⟩
          · exact .inl hold
          · exact .inr ⟨_, _, _, validatePublishNarinfo_ok hv, rfl⟩
    | _ =>
      refine .inl ?_
      rw [(answer_frame _ _ _).pathInfos (by simp [Call.writes])] at h
      exact h

theorem rows_hashed (r : FreshRun) (n : Nat) : ∀ row ∈ (r.db n).pathInfos.rows,
    StorePathHash.parseFromStorePath row.storePath = .ok row.storePathHash := by
  induction n with
  | zero => simp [ServerRun.db, ServerRun.world, ServerRun.pool, Pool.run, r.empty]
  | succ n ih =>
    intro row hrow
    rcases pathInfos_step hrow with hold | ⟨path, hash, narHash, ha, rfl⟩
    · exact ih row hold
    · exact ha.hash

variable [Ed25519] {service : ReadService} {view : DepotView} {hash : StorePathHash}
  {es : Nat → Env} {n : NarInfo} {signatures : List Text} {text : Text}

structure Vouched (service : ReadService) (view : DepotView) (hash : StorePathHash) (n : NarInfo)
    (signatures : List Text) (text : Text) : Prop where
  shown : ∃ m, parseNarinfo text service.storeDir = .ok m ∧
    StorePathHash.parseFromStorePath m.storePath = .ok hash
  signed : ∀ signature ∈ signatures, ∃ key ∈ keysFor service view, ∃ message,
    NarInfoSigner.fingerprint ⟨service.storeDir, keysFor service view⟩ n = .ok message ∧
      signature = key.signMessage message ∧
        StorePathHash.parseFromStorePath n.storePath = .ok hash

structure Vouchable (service : ReadService) (view : DepotView) (hash : StorePathHash)
    (n : NarInfo) : Prop where
  firstLine : StorePathHash.parseFromStorePath (firstPiece n.storePath) = .ok hash
  harmless : Harmless n (linesAdded service.storeDir n (keysFor service view))

omit [WildMatch] in
theorem shown_iff (hb : Base64.Printable) {message : ByteArray}
    (h : NarInfoRenderer.renderWithSignatures ⟨service.storeDir⟩ n
      (n.signatures ++ (keysFor service view).map (fun key => key.signMessage message)) =
        .ok text) :
    (∃ m, parseNarinfo text service.storeDir = .ok m ∧
      StorePathHash.parseFromStorePath m.storePath = .ok hash) ↔
    Vouchable service view hash n := by
  rw [NarInfoRenderer.renderWithSignatures] at h
  cases hn : n.normalizedNarHash with
  | error e =>
    rw [hn] at h
    cases h
  | ok narHash =>
    rw [hn] at h
    cases h
    have hsigned : Harmless n (added (printedFields service.storeDir n narHash (n.signatures ++
        (keysFor service view).map (fun key => key.signMessage message)))) ↔
        Harmless n (linesAdded service.storeDir n (keysFor service view)) :=
      harmless_signed hb _ message
    constructor
    · rintro ⟨m, hm, hhash⟩
      exact ⟨storePath_of_printed hm ▸ hhash, hsigned.mp (parse_printed_iff.mp ⟨m, hm⟩)⟩
    · rintro ⟨hfirst, hharmless⟩
      obtain ⟨m, hm⟩ := parse_printed_iff.mpr (hsigned.mpr hharmless)
      exact ⟨m, hm, (storePath_of_printed hm).symm ▸ hfirst⟩

theorem chosen_hash (r : FreshRun) {k : Nat} (h : Chosen service view hash es (r.db k) n)
    (hfirst : StorePathHash.parseFromStorePath (firstPiece n.storePath) = .ok hash) :
    StorePathHash.parseFromStorePath n.storePath = .ok hash := by
  cases h with
  | recorded row hrow =>
    obtain ⟨hmem, rfl⟩ := pathInfo_of_pathInfoIn hrow
    exact rows_hashed r k row hmem
  | fetched text n _ _ hparse => exact (parse_firstPiece hparse hash).mp hfirst

theorem vouched_iff (hb : Base64.Printable) (r : FreshRun) {k : Nat}
    (hrun : (machine.exec (service.renderNarinfo view hash) es (r.world k)).2 = .ok (some text)) :
    (∃ n signatures, Answers service view hash es (r.db k) n signatures text) ∧
    ∀ n signatures, Answers service view hash es (r.db k) n signatures text →
      (Vouched service view hash n signatures text ↔ Vouchable service view hash n) := by
  refine ⟨exists_answers hrun, fun n signatures ha => ?_⟩
  obtain ⟨message, hmessage, rfl⟩ := NarInfoSigner.sign_eq_ok _ |>.mp ha.signed
  have hshown : _ ↔ Vouchable service view hash n := shown_iff hb ha.printed
  refine ⟨fun h => hshown.mp h.shown, fun h => ⟨hshown.mpr h, fun signature hs => ?_⟩⟩
  obtain ⟨key, hkey, rfl⟩ := List.mem_map.mp hs
  exact ⟨key, hkey, message, hmessage, rfl, chosen_hash r ha.chosen h.firstLine⟩

end

section Examples

attribute [local instance] standardBase64 standardWildMatch keyless

def mirrorRun : FreshRun := scripted
  ([.submit (.upsertUpstreamCache "mirror".toList "https://mirror".toList 10 true)] ++ advances 0 3)

def helloText : Text :=
  ("StorePath: /nix/store/26xbg1ndr7hbcncrlf9nhx5is2b25d13-hello-2.12.1\n" ++
    "URL: nar/020ay2q1av2xs4n842rb3d7vz8qms1dcb87a5yd6azaci20x11lz.nar.zst\n" ++
    "Compression: zstd\n" ++
    "NarHash: sha256:020ay2q1av2xs4n842rb3d7vz8qms1dcb87a5yd6azaci20x11lz\n" ++
    "NarSize: 226560\n" ++ "References: \n").toList

def mirrored (n : Nat) : Env :=
  { moment n with
    upstream := { UpstreamCacheClient.silent with fetchNarinfoText := fun _ _ => some helloText } }

def exampleService : ReadService := ⟨StoreDir.defaultNix, exampleServer.storageCatalog, none, none⟩

def otherHash : StorePathHash := glibcHash

theorem hello_vouched_iff :
    (∃ n signatures, Answers exampleService .aggregate helloHash mirrored (mirrorRun.db 4) n
      signatures helloText) ∧
    ∀ n signatures, Answers exampleService .aggregate helloHash mirrored (mirrorRun.db 4) n
      signatures helloText →
      (Vouched exampleService .aggregate helloHash n signatures helloText ↔
        Vouchable exampleService .aggregate helloHash n) := by
  have hrun : (machine.exec (exampleService.renderNarinfo .aggregate helloHash) mirrored
      (mirrorRun.world 4)).2 = .ok (some helloText) := eq_ok_of_toOption (by decide +kernel)
  exact vouched_iff standardBase64_printable mirrorRun hrun

theorem other_path_shown :
    (machine.exec (exampleService.renderNarinfo .aggregate otherHash) mirrored
      (mirrorRun.world 4)).2 = .ok (some helloText) ∧
    ∀ n signatures, ¬ Vouched exampleService .aggregate otherHash n signatures helloText := by
  refine ⟨eq_ok_of_toOption (by decide +kernel), fun n signatures h => ?_⟩
  obtain ⟨m, hm, hhash⟩ := h.shown
  have hread : ((parseNarinfo helloText StoreDir.defaultNix).toOption.bind
      (fun m => (StorePathHash.parseFromStorePath m.storePath).toOption)) = some helloHash := by
    decide +kernel
  have hm : parseNarinfo helloText StoreDir.defaultNix = .ok m := hm
  rw [hm] at hread
  change (StorePathHash.parseFromStorePath m.storePath).toOption = some helloHash at hread
  rw [hhash] at hread
  exact absurd (Option.some.inj hread) (by decide)

end Examples

end Vouching
