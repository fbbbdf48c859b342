import ProjectCache.Access.SigningKeys

namespace KeyNames

open Textual Nix Project Calendar Tables Store Db Programs Signing KeyCrypto Depot SqliteDatabase

def automaticName (project : ProjectSlug) (number : Nat) : Text :=
  project.text ++ '-' :: decimal number

theorem automaticName_injective {project : ProjectSlug} {k l : Nat}
    (h : automaticName project k = automaticName project l) : k = l := by
  have hd : decimal k = decimal l := by simpa [automaticName] using h
  have hk : Nat.ofDigitChars 10 (decimal k) 0 = k := Nat.ofDigitChars_ten_toDigits
  have hl : Nat.ofDigitChars 10 (decimal l) 0 = l := Nat.ofDigitChars_ten_toDigits
  rw [← hk, hd, hl]

theorem not_whitespace_of_slug {c : Char} (h : isSlugCharacter c = true) :
    isWhitespace c = false := by
  have hall : whitespacePoints.all (fun n => !isSlugCharacter (Char.ofNat n)) = true := by decide
  refine Bool.eq_false_iff.mpr (fun hw => ?_)
  have hn := List.all_eq_true.mp hall c.toNat (by simpa [isWhitespace] using hw)
  simp [Char.ofNat_toNat, h] at hn

theorem trim_automaticName (project : ProjectSlug) (number : Nat) :
    trim (automaticName project number) = automaticName project number := by
  have hvalid := (Bool.and_eq_true_iff.mp project.valid).2
  have hdigit : ∀ c : Char, c.isDigit = true → isSlugCharacter c = true := by
    intro c hc
    simp only [Char.isDigit, ge_iff_le, Bool.and_eq_true, decide_eq_true_eq] at hc
    simp only [isSlugCharacter, Char.le_def, Bool.or_eq_true, Bool.and_eq_true, decide_eq_true_eq]
    exact Or.inl (Or.inl (Or.inr hc))
  refine trim_eq_self_of_forall (fun c hc => not_whitespace_of_slug ?_)
  rcases List.mem_append.mp hc with hc | hc
  · exact List.all_eq_true.mp hvalid c hc
  · rcases List.mem_cons.mp hc with rfl | hc
    · decide
    · exact hdigit c (Nat.isDigit_of_mem_toDigits (by decide) (by decide) hc)

def Counted (db : Database) : Prop :=
  ∀ psk ∈ db.projectSigningKeys.rows, ∃ p ∈ db.projects.rows, p.id = psk.projectId ∧
    ∀ number, psk.name = automaticName p.slug number → number ≤ db.countSigningKeys p.id

theorem rows_of_replaceSigningKey {db db' : Database} {row : ProjectSigningKeyRow}
    {now : SqliteTime} (h : db.replaceSigningKey row now = some db') :
    db'.projects = db.projects ∧ db'.projectSigningKeys.rows =
      db.projectSigningKeys.rows.map (Database.retireKey row.projectId now) ++ [row] := by
  obtain ⟨-, t, rfl, ht⟩ := replaceSigningKey_eq_some h
  obtain ⟨hfree, rfl⟩ := Table.insert_eq_some.mp ht
  exact ⟨rfl, rfl⟩

theorem retireKey_projectId (projectId : Uuid) (now : SqliteTime) (psk : ProjectSigningKeyRow) :
    (Database.retireKey projectId now psk).projectId = psk.projectId := by
  unfold Database.retireKey
  split <;> rfl

theorem retireKey_name (projectId : Uuid) (now : SqliteTime) (psk : ProjectSigningKeyRow) :
    (Database.retireKey projectId now psk).name = psk.name := by
  unfold Database.retireKey
  split <;> rfl

theorem retireKey_id (projectId : Uuid) (now : SqliteTime) (psk : ProjectSigningKeyRow) :
    (Database.retireKey projectId now psk).id = psk.id := by
  unfold Database.retireKey
  split <;> rfl

theorem count_replaceSigningKey {db db' : Database} {row : ProjectSigningKeyRow}
    {now : SqliteTime} (h : db.replaceSigningKey row now = some db') (projectId : Uuid) :
    db'.countSigningKeys projectId =
      db.countSigningKeys projectId + if row.projectId = projectId then 1 else 0 := by
  unfold Database.countSigningKeys
  rw [(rows_of_replaceSigningKey h).2, List.countP_append, List.countP_map]
  congr 1
  · refine List.countP_congr (fun psk _ => ?_)
    simp [retireKey_projectId]
  · by_cases hp : row.projectId = projectId <;> simp [hp]

theorem Counted.replaceSigningKey {db db' : Database} {row : ProjectSigningKeyRow}
    {now : SqliteTime} {p : ProjectRow} (hc : Counted db) (hp : p ∈ db.projects.rows)
    (hr : p.id = row.projectId)
    (hn : ∀ number, row.name = automaticName p.slug number →
      number ≤ db.countSigningKeys p.id + 1)
    (h : db.replaceSigningKey row now = some db') : Counted db' := by
  obtain ⟨hprojects, hrows⟩ := rows_of_replaceSigningKey h
  intro psk hpsk
  rw [hrows] at hpsk
  rw [hprojects]
  rcases List.mem_append.mp hpsk with hm | hm
  · obtain ⟨old, hold, rfl⟩ := List.mem_map.mp hm
    obtain ⟨q, hq, hi, hle⟩ := hc old hold
    refine ⟨q, hq, hi.trans (retireKey_projectId _ _ _).symm, fun number hname => ?_⟩
    rw [retireKey_name] at hname
    have hcount := count_replaceSigningKey h q.id
    have := hle number hname
    omega
  · obtain rfl := List.mem_singleton.mp hm
    refine ⟨p, hp, hr, fun number hname => ?_⟩
    rw [count_replaceSigningKey h, if_pos hr.symm]
    exact hn number hname

theorem Counted.of_frame {tables : List TableName} {a b : Database} (hc : Counted a)
    (hg : Grows a b) (hf : Frame tables a b) (ht : .projectSigningKeys ∉ tables) : Counted b := by
  have hkeys := hf.projectSigningKeys ht
  intro psk hpsk
  rw [hkeys] at hpsk
  obtain ⟨p, hp, hi, hle⟩ := hc psk hpsk
  obtain ⟨q, hq, hqi, hqs⟩ := hg.projects p hp
  refine ⟨q, hq, hqi.trans hi, fun number hname => ?_⟩
  rw [hqs] at hname
  rw [hqi, Database.countSigningKeys, hkeys]
  exact hle number hname

theorem Counted.next_fresh {db : Database} (hc : Counted db) {p : ProjectRow}
    (hp : p ∈ db.projects.rows) {psk : ProjectSigningKeyRow}
    (hpsk : psk ∈ db.projectSigningKeys.rows) (hi : psk.projectId = p.id) :
    psk.name ≠ automaticName p.slug (db.countSigningKeys p.id + 1) := by
  intro hname
  obtain ⟨q, hq, hqi, hle⟩ := hc psk hpsk
  obtain rfl : q = p := Database.project_eq_of_id hq hp (hqi.trans hi)
  have := hle _ hname
  omega

inductive Replaced (project : ProjectSlug) (named : ProjectRow → Text → Prop) (w : World) :
    World → Prop
  | kept : Replaced project named w w
  | replaced {p : ProjectRow} {row : ProjectSigningKeyRow} {now : SqliteTime} {db : Database}
    (hp : p ∈ w.db.projects.rows) (hs : p.slug = project) (hr : p.id = row.projectId)
    (hn : named p row.name) (h : w.db.replaceSigningKey row now = some db) :
    Replaced project named w { w with db }

section

variable [Base64] [Ed25519] [Ed25519Bytes] [ChaCha20Poly1305]

variable {project : ProjectSlug} {kek : KeyEncryptionKey} {w : World}

theorem replaceProjectSigningKey_replaced {named : ProjectRow → Text → Prop}
    (key : NamedSigningKey) (hn : ∀ p ∈ w.db.projects.rows, p.slug = project → named p key.name) :
    machine.wp (fun _ => True) (fun _ v => Replaced project named w v)
      (replaceProjectSigningKey project key kek) w := by
  simp only [replaceProjectSigningKey, encryptSigningKey, projectIdBySlug, Prog.bind_eq,
    Prog.pure_eq, Machine.wp_bind]
  refine wp_select ?_ (fun _ _ _ _ => .kept)
  refine wp_orFail (fun projectId hid => ?_) (fun _ => .kept)
  refine wp_uuid (fun idEnv _ => ?_)
  refine Machine.wp_mapError (wp_fill (fun nonce => ?_) (fun _ => .kept))
  refine wp_ofExcept (fun encrypted he => ?_) (fun _ _ => .kept)
  obtain ⟨p, hp, rfl⟩ := Option.map_eq_some_iff.mp hid
  obtain ⟨hpm, hps⟩ := Database.projectBySlug_eq_some.mp hp
  have hstep : ∀ e, Replaced project named w
    (carryOut (.replaceSigningKey ⟨idEnv.uuid, p.id, key.name,
      key.publicKeyText, encrypted.ciphertext, encrypted.nonce, none⟩) e w).1 := by
    intro e
    simp only [carryOut]
    cases hr : w.db.replaceSigningKey ⟨idEnv.uuid, p.id, key.name, key.publicKeyText,
      encrypted.ciphertext, encrypted.nonce, none⟩ e.sqliteNow with
    | none => exact .kept
    | some db => exact .replaced hpm hps rfl (hn p hpm hps) hr
  refine wp_perform_of (fun e _ _ _ => hstep e) (fun e _ _ _ v hv => ?_)
  rcases hv with rfl | rfl
  · exact .kept
  · exact hstep e

theorem generate_replaced {named : ProjectRow → Text → Prop} {given : Text}
    (hn : ∀ p ∈ w.db.projects.rows, p.slug = project → named p (trim given)) :
    machine.wp (fun _ => True) (fun _ v => Replaced project named w v)
      ((generateNamedSigningKey given).bind (fun key => replaceProjectSigningKey project key kek))
      w := by
  refine Machine.wp_bind.mpr ?_
  unfold generateNamedSigningKey
  split
  · exact .kept
  · refine Machine.wp_bind.mpr (Machine.wp_mapError (wp_fill (fun seed => ?_) (fun _ => .kept)))
    exact replaceProjectSigningKey_replaced ⟨trim given, _⟩ hn

omit [Base64] [Ed25519] [Ed25519Bytes] [ChaCha20Poly1305] in
theorem nextProjectSigningKeyName_spec :
    machine.wp (fun _ => True) (fun r v => v = w ∧ ∀ name, r = .ok name →
      ∃ p ∈ w.db.projects.rows, p.slug = project ∧
        name = automaticName p.slug (w.db.countSigningKeys p.id + 1))
      (nextProjectSigningKeyName project) w := by
  simp only [nextProjectSigningKeyName, projectIdBySlug, Prog.bind_eq, Prog.pure_eq,
    Machine.wp_bind]
  refine wp_select ?_ (by simp)
  refine wp_orFail (fun projectId hid => wp_select ?_ (by simp)) (by simp)
  obtain ⟨p, hp, rfl⟩ := Option.map_eq_some_iff.mp hid
  obtain ⟨hpm, hps⟩ := Database.projectBySlug_eq_some.mp hp
  refine ⟨rfl, ?_⟩
  rintro name ⟨⟩
  exact ⟨p, hpm, hps, by rw [hps, automaticName]⟩

def NextName (db : Database) (p : ProjectRow) (name : Text) : Prop :=
  name = automaticName p.slug (db.countSigningKeys p.id + 1)

theorem automatic_replaced {name : Option Text}
    (hn : name.filter (fun name => trim name ≠ []) = none) :
    machine.wp (fun _ => True) (fun _ v => Replaced project (NextName w.db) w v)
      (generateProjectSigningKey project name kek) w := by
  simp only [generateProjectSigningKey, Prog.bind_eq, hn]
  refine Machine.wp_bind.mpr (Machine.wp_mono nextProjectSigningKeyName_spec ?_)
  rintro r v ⟨rfl, hr⟩
  cases r with
  | error x => exact .kept
  | ok name =>
    obtain ⟨p, hp, hps, rfl⟩ := hr name rfl
    refine generate_replaced (fun q hq hqs => ?_)
    obtain rfl : q = p := Table.eq_of_clash hq hp (by simp [Keyed.clash, hqs, hps])
    exact trim_automaticName _ _

inductive KeyCall where
  | generate (name : Option Text)
  | imported (signingKey : NamedSigningKey)
  | ensure

namespace KeyCall

def program (project : ProjectSlug) (keyEncryptionKey : KeyEncryptionKey) :
    KeyCall → Action Text
  | .generate name => generateProjectSigningKey project name keyEncryptionKey
  | .imported signingKey => importProjectSigningKey project signingKey keyEncryptionKey
  | .ensure => ensureProjectSigningKey project keyEncryptionKey

def chosen : KeyCall → Option Text
  | .generate name => (name.filter (fun name => trim name ≠ [])).map trim
  | .imported signingKey => some signingKey.name
  | .ensure => none

def Names (call : KeyCall) (db : Database) (p : ProjectRow) (name : Text) : Prop :=
  match call.chosen with
  | some chosen => name = chosen
  | none => NextName db p name

def Unreserved (call : KeyCall) (db : Database) (project : ProjectSlug) : Prop :=
  ∀ chosen ∈ call.chosen, ∀ p ∈ db.projects.rows, p.slug = project →
    ∀ number, chosen = automaticName project number → number ≤ db.countSigningKeys p.id + 1

theorem program_replaced (call : KeyCall) :
    machine.wp (fun _ => True) (fun _ v => Replaced project (call.Names w.db) w v)
      (call.program project kek) w := by
  cases call with
  | generate name =>
    cases hn : name.filter (fun name => trim name ≠ []) with
    | none =>
      have hnames : (KeyCall.generate name).Names w.db = NextName w.db := by
        funext p name
        rw [Names, chosen, hn]
        rfl
      rw [hnames]
      exact automatic_replaced hn
    | some given =>
      simp only [program, generateProjectSigningKey, Prog.bind_eq, hn]
      refine generate_replaced (fun p _ _ => ?_)
      rw [Names, chosen, hn]
      exact trim_trim given
  | imported signingKey => exact replaceProjectSigningKey_replaced signingKey (fun _ _ _ => rfl)
  | ensure =>
    refine Machine.wp_bind.mpr (Machine.wp_bind.mpr (wp_select ?_ (fun _ _ _ _ => .kept)))
    cases w.db.activeSigningKey project with
    | none => exact automatic_replaced rfl
    | some record => exact .kept

end KeyCall

omit [Base64] [Ed25519Bytes] [ChaCha20Poly1305] in
theorem Counted.replaced {call : KeyCall} {v : World} (hc : Counted w.db)
    (hu : call.Unreserved w.db project) (h : Replaced project (call.Names w.db) w v) :
    Counted v.db := by
  cases h with
  | kept => exact hc
  | @replaced p row now db hp hs hr hn h =>
    refine hc.replaceSigningKey hp hr (fun number hname => ?_) h
    unfold KeyCall.Names at hn
    split at hn
    · rename_i chosen hchosen
      subst hs
      exact hu chosen hchosen p hp rfl number (hn.symm.trans hname)
    · obtain rfl := automaticName_injective (hn.symm.trans hname)
      exact Nat.le_refl _

inductive KeyStep where
  | request (project : ProjectSlug) (keyEncryptionKey : KeyEncryptionKey) (call : KeyCall)
  | other (c : Call) (h : .projectSigningKeys ∉ c.writes)

namespace KeyStep

def program : KeyStep → Action Unit
  | .request project keyEncryptionKey call => do
    let _ ← call.program project keyEncryptionKey
    return ()
  | .other c _ => do
    let _ ← perform c
    return ()

def Automatic : KeyStep → Prop
  | .request _ _ call => call.chosen = none
  | .other _ _ => False

def Unreserved (db : Database) : KeyStep → Prop
  | .request project _ call => call.Unreserved db project
  | .other _ _ => True

end KeyStep

structure KeyRun where
  start : World
  empty : start.db.projectSigningKeys.rows = []
  steps : Nat → KeyStep
  env : Nat → Nat → Env

namespace KeyRun

def world (r : KeyRun) : Nat → World
  | 0 => r.start
  | n + 1 => (machine.exec (r.steps n).program (r.env n) (r.world n)).1

def db (r : KeyRun) (n : Nat) : Database := (r.world n).db

variable {r : KeyRun}

theorem step_spec (n : Nat) :
    (∃ project kek call, r.steps n = .request project kek call ∧
      Replaced project (call.Names (r.db n)) (r.world n) (r.world (n + 1))) ∨
    ∃ c h e, r.steps n = .other c h ∧ r.world (n + 1) = (answer c e (r.world n)).1 := by
  cases hs : r.steps n with
  | request project kek call =>
    refine Or.inl ⟨project, kek, call, rfl, ?_⟩
    have hwp : machine.wp (fun _ => True)
        (fun _ v => Replaced project (call.Names (r.db n)) (r.world n) v)
        (KeyStep.request project kek call).program (r.world n) := by
      refine Machine.wp_bind.mpr (Machine.wp_mono call.program_replaced (fun x v hv => ?_))
      cases x <;> exact hv
    have hexec := Machine.exec_of_wp_any (r.env n) hwp
    rwa [world, hs]
  | other c h =>
    have hwp : machine.wp (fun _ => True) (fun _ v => ∃ e, v = (answer c e (r.world n)).1)
        (KeyStep.other c h).program (r.world n) := by
      refine Machine.wp_bind.mpr (wp_perform.mpr (fun e _ => ?_))
      generalize hreply : (answer c e (r.world n)).2 = reply
      cases reply <;> exact ⟨e, rfl⟩
    obtain ⟨e, he⟩ := Machine.exec_of_wp_any (r.env n) hwp
    refine Or.inr ⟨c, h, e, rfl, ?_⟩
    rw [← he, world, hs]

theorem counted {n : Nat} (hu : ∀ k < n, (r.steps k).Unreserved (r.db k)) : Counted (r.db n) := by
  induction n with
  | zero =>
    intro psk hpsk
    rw [db, world, r.empty] at hpsk
    cases hpsk
  | succ n ih =>
    have hc := ih (fun k hk => hu k (by omega))
    rcases r.step_spec n with ⟨project, kek, call, hs, hv⟩ | ⟨c, h, e, -, hv⟩
    · have hun := hu n (Nat.lt_succ_self n)
      rw [hs] at hun
      exact hc.replaced hun hv
    · rw [db, hv]
      exact hc.of_frame (answer_grows c e _) (answer_frame c e _) h

theorem key_kept {m n : Nat} (hmn : m ≤ n) {psk : ProjectSigningKeyRow}
    (hp : psk ∈ (r.db m).projectSigningKeys.rows) :
    ∃ later ∈ (r.db n).projectSigningKeys.rows, later.id = psk.id ∧
      later.projectId = psk.projectId ∧ later.name = psk.name := by
  induction n, hmn using Nat.le_induction with
  | base => exact ⟨psk, hp, rfl, rfl, rfl⟩
  | succ n _ ih =>
    obtain ⟨later, hl, hi, hpr, hn⟩ := ih
    rcases r.step_spec n with ⟨project, kek, call, -, hv⟩ | ⟨c, h, e, -, hv⟩
    · rw [db]
      generalize r.world (n + 1) = v at hv ⊢
      cases hv with
      | kept => exact ⟨later, hl, hi, hpr, hn⟩
      | @replaced p row now db' _ _ _ _ h =>
        refine ⟨Database.retireKey row.projectId now later, ?_, (retireKey_id _ _ _).trans hi,
          (retireKey_projectId _ _ _).trans hpr, (retireKey_name _ _ _).trans hn⟩
        rw [(rows_of_replaceSigningKey h).2]
        exact List.mem_append_left _ (List.mem_map_of_mem hl)
    · have hkeys := (answer_frame c e (r.world n)).projectSigningKeys h
      rw [← hv] at hkeys
      exact ⟨later, hkeys ▸ hl, hi, hpr, hn⟩

theorem grows_le {m n : Nat} (hmn : m ≤ n) : Grows (r.db m) (r.db n) := by
  induction n, hmn using Nat.le_induction with
  | base => exact Grows.refl _
  | succ n _ ih =>
    refine ih.trans ?_
    rcases r.step_spec n with ⟨project, kek, call, -, hv⟩ | ⟨c, h, e, -, hv⟩
    · rw [db, db]
      generalize r.world (n + 1) = v at hv ⊢
      cases hv with
      | kept => exact Grows.refl _
      | replaced _ _ _ _ h =>
        obtain ⟨-, t, rfl, -⟩ := replaceSigningKey_eq_some h
        exact { Grows.refl _ with projects := fun p hp => ⟨p, hp, rfl, rfl⟩ }
    · rw [db, db, hv]
      exact answer_grows c e _

def Added (r : KeyRun) (n : Nat) (psk : ProjectSigningKeyRow) : Prop :=
  psk ∈ (r.db (n + 1)).projectSigningKeys.rows ∧
    ∀ old ∈ (r.db n).projectSigningKeys.rows, old.id ≠ psk.id

theorem next_name_fresh {n : Nat} (hc : Counted (r.db n)) {project : ProjectSlug}
    {es : Nat → Env} {name : Text}
    (hname : (machine.exec (nextProjectSigningKeyName project) es (r.world n)).2 = .ok name)
    {m : Nat} (hmn : m ≤ n) {psk : ProjectSigningKeyRow}
    (hpsk : psk ∈ (r.db m).projectSigningKeys.rows) {p : ProjectRow}
    (hp : p ∈ (r.db m).projects.rows) (hi : p.id = psk.projectId) (hs : p.slug = project) :
    psk.name ≠ name := by
  have hwp : machine.wp (fun _ => True) _ (nextProjectSigningKeyName project) (r.world n) :=
    nextProjectSigningKeyName_spec
  obtain ⟨-, hspec⟩ := Machine.exec_of_wp_any es hwp
  obtain ⟨q, hq, hqs, rfl⟩ := hspec name hname
  obtain ⟨later, hl, -, hlp, hln⟩ := key_kept hmn hpsk
  obtain ⟨p', hp', hpi, hps⟩ := (grows_le hmn).projects p hp
  obtain rfl : p' = q :=
    Table.eq_of_clash hp' hq (by simp [Keyed.clash, hps, hs, hqs])
  rw [← hln]
  exact hc.next_fresh hp' hl (hlp.trans (hi.symm.trans hpi.symm))

theorem added_name_fresh {n : Nat} (hc : Counted (r.db n)) (ha : (r.steps n).Automatic)
    {added psk : ProjectSigningKeyRow} (hadded : r.Added n added)
    (hpsk : psk ∈ (r.db (n + 1)).projectSigningKeys.rows)
    (hproject : psk.projectId = added.projectId) (hid : psk.id ≠ added.id) :
    psk.name ≠ added.name := by
  obtain ⟨hm, hnew⟩ := hadded
  rcases r.step_spec n with ⟨project, kek, call, hs, hv⟩ | ⟨c, h, e, hs, -⟩
  · rw [hs] at ha
    rw [db] at hm hpsk
    generalize r.world (n + 1) = v at hv hm hpsk
    cases hv with
    | kept => exact absurd rfl (hnew added hm)
    | @replaced p row now db' hp _ hr hn h =>
      have hnext : NextName (r.db n) p row.name := by
        have hchosen : call.chosen = none := ha
        rwa [KeyCall.Names, hchosen] at hn
      simp only [(rows_of_replaceSigningKey h).2, List.mem_append, List.mem_map,
        List.mem_singleton] at hm hpsk
      rcases hm with ⟨old, hold, rfl⟩ | rfl
      · exact absurd (retireKey_id _ _ _).symm (hnew old hold)
      · rcases hpsk with ⟨old, hold, rfl⟩ | rfl
        · rw [retireKey_name, hnext]
          rw [retireKey_projectId] at hproject
          exact hc.next_fresh hp hold (hproject.trans hr.symm)
        · exact absurd rfl hid
  · rw [hs] at ha
    cases ha

end KeyRun

theorem automatic_names_fresh (r : KeyRun) (n : Nat)
    (hu : ∀ k < n, (r.steps k).Unreserved (r.db k)) :
    (∀ project es name,
      (machine.exec (nextProjectSigningKeyName project) es (r.world n)).2 = .ok name →
      ∀ m ≤ n, ∀ psk ∈ (r.db m).projectSigningKeys.rows, ∀ p ∈ (r.db m).projects.rows,
        p.id = psk.projectId → p.slug = project → psk.name ≠ name) ∧
    ((r.steps n).Automatic → ∀ added, r.Added n added →
      ∀ psk ∈ (r.db (n + 1)).projectSigningKeys.rows, psk.projectId = added.projectId →
        psk.id ≠ added.id → psk.name ≠ added.name) := by
  have hc := KeyRun.counted hu
  refine ⟨fun project es name hname m hmn psk hpsk p hp hi hs => ?_,
    fun ha added hadded psk hp => ?_⟩
  · exact KeyRun.next_name_fresh hc hname hmn hpsk hp hi hs
  · exact KeyRun.added_name_fresh hc ha hadded hp

end

section Examples

open SigningKeys TokenExpiry

attribute [local instance] standardBase64 exampleEd25519

attribute [local instance (2000)] ByteArray.instDecidableEq

def oneSeed : RandomBytes 32 := ⟨List.replicate 32 1, List.length_replicate⟩

@[reducible] def twoEd25519Bytes : Ed25519Bytes :=
  { exampleEd25519Bytes with
    verifyingKey := fun key =>
      if exampleEd25519Bytes.toBytes key = oneSeed.val then
        [138, 136, 227, 221, 116, 9, 241, 149, 253, 82, 219, 45, 60, 186, 93, 114, 202, 103, 9, 191,
          29, 148, 18, 27, 243, 116, 136, 1, 180, 15, 111, 92]
      else exampleEd25519Bytes.verifyingKey key }

attribute [local instance] twoEd25519Bytes

def sealedText (name : Text) (seed : RandomBytes 32) : ByteArray :=
  utf8 (name ++ ':' :: Rfc4648.encode seed.val)

def namedSeals : List (Text × RandomBytes 32 × List UInt8) :=
  [("ci".toList, zeroSeed, [252, 110, 221, 255, 20, 16, 121, 59, 217, 251, 214, 61, 50, 108, 73, 76,
      138, 78, 104, 225, 9, 162, 36, 40, 83, 135, 18, 127, 115, 175, 59, 172, 104, 246, 96, 55, 221,
      167, 15, 2, 148, 48, 114, 241, 53, 153, 4, 207, 49, 85, 145, 132, 98, 159, 11, 167, 118, 175,
      159, 65, 204, 69, 245]),
    ("example-1".toList, zeroSeed, [250, 127, 134, 211, 37, 61, 93, 87, 169, 128, 214, 61, 50, 108,
      73, 76, 138, 78, 104, 225, 9, 162, 36, 40, 83, 135, 18, 127, 115, 175, 59, 172, 104, 246, 96,
      55, 221, 167, 15, 2, 148, 48, 114, 241, 53, 153, 120, 148, 112, 172, 94, 105, 16, 55, 80, 22,
      107, 65, 82, 181, 130, 38, 163, 1, 45, 124, 99, 101, 23, 207]),
    ("example-2".toList, zeroSeed, [250, 127, 134, 211, 37, 61, 93, 87, 170, 128, 214, 61, 50, 108,
      73, 76, 138, 78, 104, 225, 9, 162, 36, 40, 83, 135, 18, 127, 115, 175, 59, 172, 104, 246, 96,
      55, 221, 167, 15, 2, 148, 48, 114, 241, 53, 153, 120, 148, 112, 172, 94, 105, 16, 55, 251,
      254, 35, 53, 207, 78, 35, 7, 29, 253, 229, 156, 137, 151, 243, 212]),
    ("example-2".toList, oneSeed, [250, 127, 134, 211, 37, 61, 93, 87, 170, 128, 214, 45, 54, 111,
      73, 92, 142, 77, 104, 241, 13, 161, 36, 56, 87, 132, 18, 111, 119, 172, 59, 188, 108, 245, 96,
      39, 217, 164, 15, 18, 144, 51, 114, 225, 49, 154, 120, 132, 116, 175, 94, 121, 20, 55, 221,
      215, 8, 73, 14, 251, 40, 248, 80, 139, 134, 254, 246, 51, 222, 224])]

@[reducible] def namedCipher : ChaCha20Poly1305 where
  encrypt := fun key nonce aad msg =>
    if key = zeroSeed.val ∧ nonce = List.replicate 12 0 then
      (namedSeals.find? (fun s => projectSigningKeyAad exampleProject s.1 = aad &&
        sealedText s.1 s.2.1 = msg)).map (fun s => s.2.2)
    else none
  decrypt := fun key nonce aad ciphertext =>
    if key = zeroSeed.val ∧ nonce = List.replicate 12 0 then
      (namedSeals.find? (fun s => projectSigningKeyAad exampleProject s.1 = aad &&
        s.2.2 = ciphertext)).map (fun s => sealedText s.1 s.2.1)
    else none

attribute [local instance] namedCipher

def importThenGenerate (name : Text) : KeyRun where
  start := exampleWorld
  empty := rfl
  steps := fun n =>
    match n with
    | 0 => .request exampleProject exampleKek (.imported ⟨name, zeroSeed⟩)
    | 1 => .request exampleProject exampleKek (.generate none)
    | _ => .other .now (by simp [Call.writes])
  env := fun n _ =>
    { exampleCreation with
      uuid := BitVec.ofNat 128 (n + 1)
      random := fun length =>
        ⟨List.replicate length (if length = 32 then 1 else 0), List.length_replicate⟩ }

theorem ci_then_fresh :
    (∀ project es name,
      (machine.exec (nextProjectSigningKeyName project) es
        ((importThenGenerate "ci".toList).world 1)).2 = .ok name →
      ∀ m ≤ 1, ∀ psk ∈ ((importThenGenerate "ci".toList).db m).projectSigningKeys.rows,
        ∀ p ∈ ((importThenGenerate "ci".toList).db m).projects.rows,
          p.id = psk.projectId → p.slug = project → psk.name ≠ name) ∧
    (((importThenGenerate "ci".toList).steps 1).Automatic →
      ∀ added, (importThenGenerate "ci".toList).Added 1 added →
      ∀ psk ∈ ((importThenGenerate "ci".toList).db (1 + 1)).projectSigningKeys.rows,
        psk.projectId = added.projectId → psk.id ≠ added.id → psk.name ≠ added.name) := by
  refine automatic_names_fresh (importThenGenerate "ci".toList) 1 (fun k hk => ?_)
  obtain rfl : k = 0 := by omega
  rintro chosen ⟨⟩ p - - number hname
  have hhead : some 'c' = some 'e' := congrArg List.head? hname
  exact absurd hhead (by decide)

theorem imported_name_given_again :
    ((importThenGenerate "example-2".toList).steps 1).Automatic ∧
    (machine.exec (nextProjectSigningKeyName exampleProject) (fun _ => exampleLater)
      ((importThenGenerate "example-2".toList).world 1)).2.toOption = some "example-2".toList ∧
    ((importThenGenerate "example-2".toList).db 2).projectSigningKeys.rows.map
        (fun psk => (psk.projectId, psk.name, psk.publicKey)) =
      [(0, "example-2".toList, "example-2:O2onvM62pC1io6jQKm8Nc2UyFXcd4kOmOsBIoYtZ2ik=".toList),
        (0, "example-2".toList,
          "example-2:iojj3XQJ8ZX9UtstPLpdcspnCb8dlBIb83SIAbQPb1w=".toList)] := by
  refine ⟨rfl, ?_⟩
  decide +kernel

end Examples

end KeyNames
