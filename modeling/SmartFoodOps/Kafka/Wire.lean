/-
smartfood-kafka: the wire format of events, and the schema registry.

* `pack`, `split` — the five bytes before the Avro body; `split_pack` — what is packed is split;
* `Avro` — what the Avro library does, and `Avro.Lawful` — what is documented of it;
* `System`, `step` — processes that encode and decode, with their caches, and one registry; a call
  waits for the registry while others go on, the registry may refuse anything, other programs
  register schemas of their own;
* `Sound` — what a cache says is what the registry says;
* `decodes_sent` — what one process has encoded every process decodes, or is refused the schema.

A process passes one schema for a subject; another process may pass another (it is another version of
the program).
-/
import SmartFoodOps.Kafka.Consumer
import SmartFoodOps.Lib.Dict
import Mathlib.Algebra.Group.Nat.Defs
import Mathlib.Logic.Function.Basic

open Machine

namespace Kafka.Wire

/-! ### Bytes -/

def badMagic : Failure := ⟨"SerdeError", "not Confluent wire format (bad magic byte)"⟩

def undecodable (id : ℕ) : Failure :=
  ⟨"SerdeError", "undecodable Avro body for schema " ++ toString id⟩

/-- `struct.pack(">bI", _MAGIC, schema_id)`; `none` is a struct.error. -/
def pack (id : ℕ) : Option Bytes :=
  if id < 2 ^ 32 then
    some [0, .ofNat (id / 2 ^ 24), .ofNat (id / 2 ^ 16), .ofNat (id / 2 ^ 8), .ofNat id]
  else none

/-- `struct.unpack(">I", _)`, of four bytes. -/
def unpack (bs : Bytes) : ℕ := bs.foldl (fun n b => 256 * n + b.toNat) 0

/-- The id of the schema and the Avro body; `none` is a bad magic byte. -/
def split (data : Bytes) : Option (ℕ × Bytes) :=
  if data.length < 5 ∨ data.head? ≠ some 0 then none
  else some (unpack ((data.drop 1).take 4), data.drop 5)

theorem unpack_ofNat {id : ℕ} (h : id < 2 ^ 32) :
    unpack [.ofNat (id / 2 ^ 24), .ofNat (id / 2 ^ 16), .ofNat (id / 2 ^ 8), .ofNat id] = id := by
  simp only [unpack, List.foldl_cons, List.foldl_nil, UInt8.toNat_ofNat']
  omega

/-- **What is packed is split again.** -/
theorem split_pack {id : ℕ} {head body : Bytes} (h : pack id = some head) :
    split (head ++ body) = some (id, body) := by
  unfold pack at h
  split at h
  · next hid =>
    cases h
    have hlen : ¬ (([0, .ofNat (id / 2 ^ 24), .ofNat (id / 2 ^ 16), .ofNat (id / 2 ^ 8),
        .ofNat id] : Bytes) ++ body).length < 5 := by
      rw [List.length_append]
      exact Nat.not_lt.mpr (Nat.le_add_right 5 _)
    rw [split, if_neg (not_or.mpr ⟨hlen, fun h => h rfl⟩)]
    exact congrArg (fun n => some (n, body)) (unpack_ofNat hid)
  · cases h

/-! ### Avro -/

/-- The libraries: JSON texts of schemas `S`, parsed schemas `P`, records `R`; `none` is an
exception. -/
structure Avro (S P R : Type) where
  dumps : S → String
  loads : String → Option S
  parseSchema : S → Option P
  schemalessWriter : P → R → Option Bytes
  schemalessReader : P → Bytes → Option R

variable {S P R C : Type}

/-- The text of a schema gives the schema, and what has been written is read under the same schema:
the record, with the defaults of the schema in place of what it lacks. -/
structure Avro.Lawful (av : Avro S P R) (filled : P → R → R) : Prop where
  loads_dumps : ∀ sch, av.loads (av.dumps sch) = some sch
  read_written : ∀ p r bs, av.schemalessWriter p r = some bs →
    av.schemalessReader p bs = some (filled p r)

/-! ### The system -/

/-- The caches of a process: the registry client's two, and the serde's. -/
structure Client (S P : Type) where
  idBySubject : Dict String ℕ
  schemaById : Dict ℕ S
  parsed : Dict ℕ P

/-- A call that waits for the registry. -/
inductive Waiting (R : Type)
  /-- For the compatibility of the subject to be set. -/
  | config (subject : String) (record : R)
  /-- For the id of its schema. -/
  | versions (subject : String) (record : R)
  /-- For the schema of the id in the data. -/
  | schemas (data : Bytes) (id : ℕ) (body : Bytes)

/-- A message that has been encoded: the schema and the record that were passed. -/
structure Sent (S R : Type) where
  data : Bytes
  schema : S
  record : R

/-- A call of `decode` that has ended. -/
structure Decoded (R : Type) where
  data : Bytes
  outcome : Except DecodeError R

structure System (C S P R : Type) where
  clients : C → Client S P
  /-- The texts of the schemas, by id. -/
  registry : Dict ℕ String
  waiting : List (C × Waiting R)
  sent : List (Sent S R)
  decoded : List (Decoded R)

def Client.fresh : Client S P := ⟨Dict.empty, Dict.empty, Dict.empty⟩

def System.start : System C S P R := ⟨fun _ => .fresh, Dict.empty, [], [], []⟩

inductive Label (C R : Type)
  | encode (c : C) (subject : String) (record : R)
  | decode (c : C) (data : Bytes)
  /-- The compatibility is set for a call that waits, or the registry fails. -/
  | configured (i : ℕ) (done : Bool)
  /-- The registry gives the schema of a call its id, or fails. -/
  | registered (i : ℕ) (id : Option ℕ)
  /-- The registry answers with the schema, or fails with a status. -/
  | resolved (i : ℕ) (failed : Option Failure)
  | cancel (i : ℕ)
  /-- Some other program has a schema registered. -/
  | publish (id : ℕ) (text : String)

/-- The schema is cached under the id of the registry. -/
def Client.store (k : Client S P) (subject : String) (id : ℕ) (schema : S) : Client S P :=
  { k with
    idBySubject := k.idBySubject.alter subject fun _ => id
    schemaById := k.schemaById.alter id fun _ => schema }

def System.setClient [DecidableEq C] (s : System C S P R) (c : C) (k : Client S P) : System C S P R :=
  { s with clients := Function.update s.clients c k }

def System.ended (s : System C S P R) (data : Bytes) (outcome : Except DecodeError R) :
    System C S P R :=
  { s with decoded := ⟨data, outcome⟩ :: s.decoded }

def System.drop (s : System C S P R) (i : ℕ) : System C S P R :=
  { s with waiting := s.waiting.eraseIdx i }

/-- `encode`, where the parsed schema is at hand; what cannot be written raises. -/
def System.write (av : Avro S P R) (s : System C S P R) (id : ℕ) (p : P) (schema : S) (record : R) :
    System C S P R :=
  match av.schemalessWriter p record, pack id with
  | some body, some head => { s with sent := ⟨head ++ body, schema, record⟩ :: s.sent }
  | _, _ => s

/-- `encode`, from the id of the schema on. -/
def System.encodeWith [DecidableEq C] (av : Avro S P R) (s : System C S P R) (c : C) (id : ℕ)
    (schema : S) (record : R) : System C S P R :=
  match (s.clients c).parsed.get id with
  | some p => s.write av id p schema record
  | none =>
    match av.parseSchema schema with
    | none => s
    | some p =>
      (s.setClient c { s.clients c with
        parsed := (s.clients c).parsed.alter id fun _ => p }).write av id p schema record

/-- The end of `decode`. -/
def outcomeOf (av : Avro S P R) (id : ℕ) (p : P) (body : Bytes) : Except DecodeError R :=
  match av.schemalessReader p body with
  | some r => .ok r
  | none => .error (.serde (undecodable id))

/-- `decode`, from the schema on. -/
def System.decodeWith [DecidableEq C] (av : Avro S P R) (s : System C S P R) (c : C) (data : Bytes)
    (id : ℕ) (body : Bytes) (schema : S) : System C S P R :=
  match av.parseSchema schema with
  | none => s.ended data (.error (.other ⟨"SchemaParseException", ""⟩))
  | some p =>
    (s.setClient c { s.clients c with
      parsed := (s.clients c).parsed.alter id fun _ => p }).ended data (outcomeOf av id p body)

/-- The registry gives a schema the id that it has, or one that is free. -/
def Admits (registry : Dict ℕ String) (id : ℕ) (text : String) : Prop :=
  registry.get id = none ∨ registry.get id = some text

instance (registry : Dict ℕ String) (id : ℕ) (text : String) : Decidable (Admits registry id text) :=
  inferInstanceAs (Decidable (_ = _ ∨ _ = _))

def System.publish (s : System C S P R) (id : ℕ) (text : String) : System C S P R :=
  { s with registry := s.registry.alter id fun _ => text }

def unknownSchema (id : ℕ) : Failure :=
  ⟨"SchemaRegistryError", "unknown schema id " ++ toString id ++ ": 404"⟩

def step [DecidableEq C] (av : Avro S P R) (schemaOf : C → String → S) (s : System C S P R) :
    Label C R → Option (System C S P R)
  | .encode c subject record =>
    match (s.clients c).idBySubject.get subject with
    | some id => some (s.encodeWith av c id (schemaOf c subject) record)
    | none => some { s with waiting := (c, .config subject record) :: s.waiting }
  | .decode c data =>
    match split data with
    | none => some (s.ended data (.error (.serde badMagic)))
    | some (id, body) =>
      match (s.clients c).parsed.get id with
      | some p => some (s.ended data (outcomeOf av id p body))
      | none =>
        match (s.clients c).schemaById.get id with
        | some schema => some (s.decodeWith av c data id body schema)
        | none => some { s with waiting := (c, .schemas data id body) :: s.waiting }
  | .configured i done =>
    match s.waiting[i]? with
    | some (c, .config subject record) =>
      if done then some { s with waiting := s.waiting.set i (c, .versions subject record) }
      else some (s.drop i)
    | _ => none
  | .registered i answer =>
    match s.waiting[i]?, answer with
    | some (_, .versions _ _), none => some (s.drop i)
    | some (c, .versions subject record), some id =>
      let schema := schemaOf c subject
      if Admits s.registry id (av.dumps schema) then
        some ((((s.drop i).publish id (av.dumps schema)).setClient c
          ((s.clients c).store subject id schema)).encodeWith av c id schema record)
      else none
    | _, _ => none
  | .resolved i failed =>
    match s.waiting[i]?, failed with
    | some (_, .schemas data _ _), some e => some ((s.drop i).ended data (.error (.other e)))
    | some (c, .schemas data id body), none =>
      match s.registry.get id with
      | none => some ((s.drop i).ended data (.error (.other (unknownSchema id))))
      | some text =>
        match av.loads text with
        | none => some ((s.drop i).ended data (.error (.other ⟨"JSONDecodeError", ""⟩)))
        | some schema =>
          some (((s.drop i).setClient c { s.clients c with
            schemaById := (s.clients c).schemaById.alter id fun _ => schema }).decodeWith av c data
              id body schema)
    | _, _ => none
  | .cancel i => if i < s.waiting.length then some (s.drop i) else none
  | .publish id text => if Admits s.registry id text then some (s.publish id text) else none

/-! ### What the caches say -/

variable {av : Avro S P R} {filled : P → R → R} {schemaOf : C → String → S}
  {s t : System C S P R} {registry registry' : Dict ℕ String} {id : ℕ} {sch sch' : S} {p : P}
  {text : String} {c : C} {data body : Bytes} {record : R}

/-- The registry has the schema under the id. -/
def Resolves (av : Avro S P R) (registry : Dict ℕ String) (id : ℕ) (sch : S) : Prop :=
  ∃ text, registry.get id = some text ∧ av.loads text = some sch

/-- It has it, and the schema parses. -/
def Parses (av : Avro S P R) (registry : Dict ℕ String) (id : ℕ) (p : P) : Prop :=
  ∃ sch, Resolves av registry id sch ∧ av.parseSchema sch = some p

/-- What has been sent, has been written under the schema that the registry has for it. -/
def Written (av : Avro S P R) (registry : Dict ℕ String) (m : Sent S R) : Prop :=
  ∃ id p head body, Resolves av registry id m.schema ∧ av.parseSchema m.schema = some p ∧
    av.schemalessWriter p m.record = some body ∧ pack id = some head ∧ m.data = head ++ body

/-- What a call of `decode` has made of its data; the registry may be at fault for anything. -/
def Judged (av : Avro S P R) (registry : Dict ℕ String) (data : Bytes) :
    Except DecodeError R → Prop
  | .ok r => ∃ id body p, split data = some (id, body) ∧ Parses av registry id p ∧
      av.schemalessReader p body = some r
  | .error (.serde e) => (split data = none ∧ e = badMagic) ∨
      ∃ id body p, split data = some (id, body) ∧ Parses av registry id p ∧
        av.schemalessReader p body = none ∧ e = undecodable id
  | .error (.other _) => True

structure Sound (av : Avro S P R) (schemaOf : C → String → S) (s : System C S P R) : Prop where
  subjects : ∀ c subject id, (s.clients c).idBySubject.get subject = some id →
    Resolves av s.registry id (schemaOf c subject)
  schemas : ∀ c id sch, (s.clients c).schemaById.get id = some sch → Resolves av s.registry id sch
  parsed : ∀ c id p, (s.clients c).parsed.get id = some p → Parses av s.registry id p
  waiting : ∀ c data id body, (c, Waiting.schemas data id body) ∈ s.waiting →
    split data = some (id, body)
  sent : ∀ m ∈ s.sent, Written av s.registry m
  decoded : ∀ d ∈ s.decoded, Judged av s.registry d.data d.outcome

theorem Resolves.unique (h : Resolves av registry id sch) (h' : Resolves av registry id sch') :
    sch' = sch := by
  obtain ⟨text, ht, hl⟩ := h
  obtain ⟨text', ht', hl'⟩ := h'
  obtain rfl := Option.some.inj (ht.symm.trans ht')
  exact Option.some.inj (hl'.symm.trans hl)

theorem Parses.unique {p' : P} (h : Parses av registry id p) (h' : Parses av registry id p') :
    p' = p := by
  obtain ⟨sch, hr, hp⟩ := h
  obtain ⟨sch', hr', hp'⟩ := h'
  rw [hr.unique hr'] at hp'
  exact Option.some.inj (hp'.symm.trans hp)

/-! ### The registry grows -/

def Grows (registry registry' : Dict ℕ String) : Prop :=
  ∀ id text, registry.get id = some text → registry'.get id = some text

theorem grows_alter (h : Admits registry id text) :
    Grows registry (registry.alter id fun _ => text) := by
  intro id' text' hget
  rw [Dict.get_alter]
  split
  · next heq =>
    subst heq
    rcases h with hnone | hsome
    · rw [hnone] at hget
      cases hget
    · exact hsome.symm.trans hget
  · exact hget

theorem Resolves.grow (h : Resolves av registry id sch) (hg : Grows registry registry') :
    Resolves av registry' id sch :=
  h.imp fun _ => And.imp_left (hg _ _)

theorem Parses.grow (h : Parses av registry id p) (hg : Grows registry registry') :
    Parses av registry' id p :=
  h.imp fun _ => And.imp_left (·.grow hg)

theorem Written.grow {m : Sent S R} (h : Written av registry m) (hg : Grows registry registry') :
    Written av registry' m := by
  obtain ⟨id, p, head, body, hr, hrest⟩ := h
  exact ⟨id, p, head, body, hr.grow hg, hrest⟩

theorem Judged.grow {o : Except DecodeError R} (h : Judged av registry data o)
    (hg : Grows registry registry') : Judged av registry' data o := by
  match o with
  | .ok _ =>
    obtain ⟨id, body, p, hs, hp, hr⟩ := h
    exact ⟨id, body, p, hs, hp.grow hg, hr⟩
  | .error (.serde _) =>
    rcases h with h | ⟨id, body, p, hs, hp, hr⟩
    · exact .inl h
    · exact .inr ⟨id, body, p, hs, hp.grow hg, hr⟩
  | .error (.other _) => trivial

/-! ### Steps -/

theorem Sound.publish (h : Sound av schemaOf s) (ha : Admits s.registry id text) :
    Sound av schemaOf (s.publish id text) := by
  have hg : Grows s.registry (s.publish id text).registry := grows_alter ha
  exact ⟨fun c subject id hid => (h.subjects c subject id hid).grow hg,
    fun c id sch hid => (h.schemas c id sch hid).grow hg,
    fun c id p hid => (h.parsed c id p hid).grow hg, h.waiting,
    fun m hm => (h.sent m hm).grow hg, fun d hd => (h.decoded d hd).grow hg⟩

theorem Sound.drop (h : Sound av schemaOf s) (i : ℕ) : Sound av schemaOf (s.drop i) :=
  ⟨h.subjects, h.schemas, h.parsed,
    fun c data id body hm => h.waiting c data id body (List.mem_of_mem_eraseIdx hm),
    h.sent, h.decoded⟩

theorem Sound.ended (h : Sound av schemaOf s) {o : Except DecodeError R}
    (ho : Judged av s.registry data o) : Sound av schemaOf (s.ended data o) := by
  refine ⟨h.subjects, h.schemas, h.parsed, h.waiting, h.sent, fun d hd => ?_⟩
  rcases List.mem_cons.mp hd with rfl | hd
  · exact ho
  · exact h.decoded d hd

theorem Sound.write (h : Sound av schemaOf s) (hr : Resolves av s.registry id sch)
    (hp : av.parseSchema sch = some p) : Sound av schemaOf (s.write av id p sch record) := by
  unfold System.write
  split
  · next body head hbody hhead =>
    refine ⟨h.subjects, h.schemas, h.parsed, h.waiting, fun m hm => ?_, h.decoded⟩
    rcases List.mem_cons.mp hm with rfl | hm
    · exact ⟨id, p, head, body, hr, hp, hbody, hhead, rfl⟩
    · exact h.sent m hm
  · exact h

/-- A call waits, or waits for something else. -/
theorem Sound.wait (h : Sound av schemaOf s) {ws : List (C × Waiting R)}
    (hws : ∀ w ∈ ws, w ∈ s.waiting ∨ ∀ data id body, w.2 = .schemas data id body →
      split data = some (id, body)) : Sound av schemaOf { s with waiting := ws } :=
  ⟨h.subjects, h.schemas, h.parsed, fun c data id body hm => (hws _ hm).elim
    (h.waiting c data id body) fun hw => hw data id body rfl, h.sent, h.decoded⟩

theorem sound_start : Sound av schemaOf (System.start : System C S P R) := by
  refine ⟨fun c subject id h => ?_, fun c id sch h => ?_, fun c id p h => ?_,
    fun c data id body h => absurd h List.not_mem_nil, fun m h => absurd h List.not_mem_nil,
    fun d h => absurd h List.not_mem_nil⟩
  all_goals cases h

variable [DecidableEq C]

/-- A client changes: what is new in its caches is to be shown. -/
theorem Sound.setClient (h : Sound av schemaOf s) {k : Client S P}
    (hsubjects : ∀ subject id, k.idBySubject.get subject = some id →
      Resolves av s.registry id (schemaOf c subject))
    (hschemas : ∀ id sch, k.schemaById.get id = some sch → Resolves av s.registry id sch)
    (hparsed : ∀ id p, k.parsed.get id = some p → Parses av s.registry id p) :
    Sound av schemaOf (s.setClient c k) := by
  have hclient : ∀ c', (s.setClient c k).clients c' = if c' = c then k else s.clients c' :=
    fun c' => Function.update_apply _ _ _ _
  refine ⟨fun c' subject id hid => ?_, fun c' id sch hid => ?_, fun c' id p hid => ?_, h.waiting,
    h.sent, h.decoded⟩
  all_goals
    rw [hclient] at hid
    split at hid
  · next heq => exact heq ▸ hsubjects subject id hid
  · exact h.subjects c' subject id hid
  · exact hschemas id sch hid
  · exact h.schemas c' id sch hid
  · exact hparsed id p hid
  · exact h.parsed c' id p hid

/-- A schema is parsed, and the result cached. -/
theorem Sound.parse (h : Sound av schemaOf s) (hp : Parses av s.registry id p) (c : C) :
    Sound av schemaOf (s.setClient c { s.clients c with
      parsed := (s.clients c).parsed.alter id fun _ => p }) := by
  refine h.setClient (h.subjects c) (h.schemas c) fun id' p' hget => ?_
  rw [Dict.get_alter] at hget
  split at hget
  · next heq =>
    cases hget
    exact heq ▸ hp
  · exact h.parsed c id' p' hget

/-- A schema is cached under its id. -/
theorem Sound.keep (h : Sound av schemaOf s) (hr : Resolves av s.registry id sch) (c : C) :
    Sound av schemaOf (s.setClient c { s.clients c with
      schemaById := (s.clients c).schemaById.alter id fun _ => sch }) := by
  refine h.setClient (h.subjects c) (fun id' sch' hget => ?_) (h.parsed c)
  rw [Dict.get_alter] at hget
  split at hget
  · next heq =>
    cases hget
    exact heq ▸ hr
  · exact h.schemas c id' sch' hget

theorem Sound.store (h : Sound av schemaOf s) {subject : String}
    (hr : Resolves av s.registry id (schemaOf c subject)) :
    Sound av schemaOf (s.setClient c ((s.clients c).store subject id (schemaOf c subject))) := by
  refine h.setClient (fun subject' id' hget => ?_) (fun id' sch' hget => ?_) (h.parsed c)
  · replace hget : ((s.clients c).idBySubject.alter subject fun _ => id).get subject' = some id' :=
      hget
    rw [Dict.get_alter] at hget
    split at hget
    · next heq =>
      cases hget
      exact heq ▸ hr
    · exact h.subjects c subject' id' hget
  · replace hget : ((s.clients c).schemaById.alter id fun _ => schemaOf c subject).get id' =
      some sch' := hget
    rw [Dict.get_alter] at hget
    split at hget
    · next heq =>
      cases hget
      exact heq ▸ hr
    · exact h.schemas c id' sch' hget

theorem Sound.encodeWith (h : Sound av schemaOf s) (hr : Resolves av s.registry id sch) :
    Sound av schemaOf (s.encodeWith av c id sch record) := by
  unfold System.encodeWith
  split
  · next p hp =>
    -- what is cached has been parsed from this very schema
    obtain ⟨sch', hr', hp'⟩ := h.parsed c id p hp
    exact h.write hr (hr.unique hr' ▸ hp')
  · split
    · exact h
    · next p hp =>
      exact (h.parse ⟨sch, hr, hp⟩ c).write hr hp

theorem judged_outcomeOf (hs : split data = some (id, body)) (hp : Parses av registry id p) :
    Judged av registry data (outcomeOf av id p body) := by
  unfold outcomeOf
  split
  · next r hr => exact ⟨id, body, p, hs, hp, hr⟩
  · next hr => exact .inr ⟨id, body, p, hs, hp, hr, rfl⟩

theorem Sound.decodeWith (h : Sound av schemaOf s) (hs : split data = some (id, body))
    (hr : Resolves av s.registry id sch) :
    Sound av schemaOf (s.decodeWith av c data id body sch) := by
  unfold System.decodeWith
  split
  · exact h.ended trivial
  · next p hp =>
    exact (h.parse ⟨sch, hr, hp⟩ c).ended (judged_outcomeOf hs ⟨sch, hr, hp⟩)

theorem sound_step {l : Label C R} (hl : ∀ sch, av.loads (av.dumps sch) = some sch)
    (h : Sound av schemaOf s) (hs : step av schemaOf s l = some t) : Sound av schemaOf t := by
  cases l with
  | encode c subject record =>
    simp only [step] at hs
    split at hs
    · next id hid =>
      cases hs
      exact h.encodeWith (h.subjects c subject id hid)
    · cases hs
      refine h.wait fun w hw => ?_
      rcases List.mem_cons.mp hw with rfl | hw
      · exact .inr fun _ _ _ heq => by cases heq
      · exact .inl hw
  | decode c data =>
    simp only [step] at hs
    split at hs
    · next hsplit =>
      cases hs
      exact h.ended (.inl ⟨hsplit, rfl⟩)
    · next id body hsplit =>
      split at hs
      · next p hp =>
        cases hs
        exact h.ended (judged_outcomeOf hsplit (h.parsed c id p hp))
      · split at hs
        · next sch hsch =>
          cases hs
          exact h.decodeWith hsplit (h.schemas c id sch hsch)
        · cases hs
          refine h.wait fun w hw => ?_
          rcases List.mem_cons.mp hw with rfl | hw
          · exact .inr fun _ _ _ heq => by cases heq; exact hsplit
          · exact .inl hw
  | configured i done =>
    simp only [step] at hs
    split at hs
    · split at hs
      · cases hs
        refine h.wait fun w hw => ?_
        rcases List.mem_or_eq_of_mem_set hw with hw | rfl
        · exact .inl hw
        · exact .inr fun _ _ _ heq => by cases heq
      · cases hs
        exact h.drop i
    · cases hs
  | registered i answer =>
    simp only [step] at hs
    split at hs
    · cases hs
      exact h.drop i
    · next c subject record id hw =>
      split at hs
      · next ha =>
        cases hs
        -- the registry has the schema, and from now on so does the cache
        have hr : Resolves av ((s.drop i).publish id (av.dumps (schemaOf c subject))).registry id
            (schemaOf c subject) := by
          refine ⟨_, ?_, hl _⟩
          show (s.registry.alter id _).get id = _
          rw [Dict.get_alter, if_pos rfl]
        exact (((h.drop i).publish ha).store hr).encodeWith hr
      · cases hs
    · cases hs
  | resolved i failed =>
    simp only [step] at hs
    split at hs
    · cases hs
      exact (h.drop i).ended trivial
    · next c data id body hw =>
      have hsplit := h.waiting c data id body (List.mem_of_getElem? hw)
      split at hs
      · cases hs
        exact (h.drop i).ended trivial
      · next text htext =>
        split at hs
        · cases hs
          exact (h.drop i).ended trivial
        · next sch hsch =>
          cases hs
          have hr : Resolves av (s.drop i).registry id sch := ⟨text, htext, hsch⟩
          exact ((h.drop i).keep hr c).decodeWith hsplit hr
    · cases hs
  | cancel i =>
    simp only [step] at hs
    split at hs
    · cases hs
      exact h.drop i
    · cases hs
  | publish id text =>
    simp only [step] at hs
    split at hs
    · next ha =>
      cases hs
      exact h.publish ha
    · cases hs

/-! ### Messages -/

/-- What producers and consumers can rely on. -/
structure Faithful (av : Avro S P R) (filled : P → R → R) (schemaOf : C → String → S)
    (s : System C S P R) : Prop where
  /-- What has been encoded is decoded to its record, or the registry is at fault. -/
  delivered : ∀ m ∈ s.sent, ∀ d ∈ s.decoded, d.data = m.data →
    (∃ p, av.parseSchema m.schema = some p ∧ d.outcome = .ok (filled p m.record)) ∨
      ∃ e, d.outcome = .error (.other e)
  /-- A SerdeError is about the bytes. -/
  poison : ∀ d ∈ s.decoded, ∀ e, d.outcome = .error (.serde e) →
    (split d.data = none ∧ e = badMagic) ∨ ∃ id body p, split d.data = some (id, body) ∧
      Parses av s.registry id p ∧ av.schemalessReader p body = none ∧ e = undecodable id
  /-- Any process can decode what any other has encoded, by one answer of the registry at most. -/
  readable : ∀ m ∈ s.sent, ∀ c, ∃ p t, av.parseSchema m.schema = some p ∧
    (exec (step av schemaOf) s [.decode c m.data] = some t ∨
      exec (step av schemaOf) s [.decode c m.data, .resolved 0 none] = some t) ∧
    t.decoded = ⟨m.data, .ok (filled p m.record)⟩ :: s.decoded

theorem Written.judged {m : Sent S R} (hav : av.Lawful filled) (hw : Written av registry m)
    {o : Except DecodeError R} (hj : Judged av registry m.data o) :
    (∃ p, av.parseSchema m.schema = some p ∧ o = .ok (filled p m.record)) ∨
      ∃ e, o = .error (.other e) := by
  obtain ⟨id, p, head, body, hr, hp, hbody, hhead, hdata⟩ := hw
  have hsplit : split m.data = some (id, body) := hdata ▸ split_pack hhead
  have hread := hav.read_written p m.record body hbody
  match o with
  | .ok r =>
    obtain ⟨id', body', p', hs', hp', hr'⟩ := hj
    obtain ⟨rfl, rfl⟩ := Prod.mk.inj (Option.some.inj (hsplit.symm.trans hs'))
    obtain rfl := Parses.unique ⟨_, hr, hp⟩ hp'
    exact .inl ⟨p', hp, congrArg _ (Option.some.inj (hr'.symm.trans hread))⟩
  | .error (.serde e) =>
    rcases hj with ⟨hnone, -⟩ | ⟨id', body', p', hs', hp', hr', -⟩
    · cases hsplit.symm.trans hnone
    · obtain ⟨rfl, rfl⟩ := Prod.mk.inj (Option.some.inj (hsplit.symm.trans hs'))
      obtain rfl := Parses.unique ⟨_, hr, hp⟩ hp'
      cases hread.symm.trans hr'
  | .error (.other e) => exact .inr ⟨e, rfl⟩

theorem decoded_decodeWith (hp : av.parseSchema sch = some p) :
    (s.decodeWith av c data id body sch).decoded = ⟨data, outcomeOf av id p body⟩ :: s.decoded := by
  unfold System.decodeWith
  rw [hp]
  rfl

theorem Sound.readable (hav : av.Lawful filled) (h : Sound av schemaOf s) {m : Sent S R}
    (hm : m ∈ s.sent) (c : C) : ∃ p t, av.parseSchema m.schema = some p ∧
    (exec (step av schemaOf) s [.decode c m.data] = some t ∨
      exec (step av schemaOf) s [.decode c m.data, .resolved 0 none] = some t) ∧
    t.decoded = ⟨m.data, .ok (filled p m.record)⟩ :: s.decoded := by
  obtain ⟨id, p, head, body, hr, hp, hbody, hhead, hdata⟩ := h.sent m hm
  have hsplit : split m.data = some (id, body) := hdata ▸ split_pack hhead
  have hout : outcomeOf av id p body = .ok (filled p m.record) := by
    unfold outcomeOf
    rw [hav.read_written p m.record body hbody]
  refine ⟨p, ?_⟩
  cases hparsed : (s.clients c).parsed.get id with
  | some p' =>
    obtain rfl := Parses.unique ⟨_, hr, hp⟩ (h.parsed c id p' hparsed)
    exact ⟨_, hp, .inl (by simp only [exec_cons, exec_nil, step, hsplit, hparsed]; rfl),
      congrArg (fun o => Decoded.mk m.data o :: s.decoded) hout⟩
  | none =>
    cases hschema : (s.clients c).schemaById.get id with
    | some sch' =>
      obtain rfl := hr.unique (h.schemas c id sch' hschema)
      refine ⟨_, hp, .inl (by simp only [exec_cons, exec_nil, step, hsplit, hparsed, hschema]; rfl),
        ?_⟩
      rw [decoded_decodeWith hp, hout]
    | none =>
      -- the registry is asked
      obtain ⟨text, htext, hloads⟩ := hr
      refine ⟨_, hp, .inr (by
        simp only [exec_cons, exec_nil, step, hsplit, hparsed, hschema, Option.bind_some,
          List.getElem?_cons_zero, htext, hloads]
        rfl), ?_⟩
      rw [decoded_decodeWith hp, hout]
      rfl

/-- **What one process has encoded, every process decodes.** -/
theorem decodes_sent {ls : List (Label C R)} (hav : av.Lawful filled)
    (h : Run (step av schemaOf) Always System.start ls t) : Faithful av filled schemaOf t := by
  have hsound : Sound av schemaOf t := h.invariant sound_start
    fun _ _ _ hi _ hs => sound_step hav.loads_dumps hi hs
  refine ⟨fun m hm d hd hdata => ?_, fun d hd e he => ?_, fun m hm c => hsound.readable hav hm c⟩
  · exact (hsound.sent m hm).judged hav (hdata ▸ hsound.decoded d hd)
  · have hj := hsound.decoded d hd
    rw [he] at hj
    exact hj

/-! ### A schema of bytes -/

inductive Primitive
  | bytes
  deriving DecidableEq

/-- Avro, for the schema `"bytes"` and values whose length takes one byte. -/
def bytesAvro : Avro Primitive Primitive Bytes where
  dumps _ := "\"bytes\""
  loads text := if text = "\"bytes\"" then some .bytes else none
  parseSchema := some
  schemalessWriter _ r := if r.length < 64 then some (.ofNat (2 * r.length) :: r) else none
  schemalessReader _
    | [] => none
    | n :: bs => if n.toNat % 2 = 0 ∧ n.toNat < 128 ∧ n.toNat / 2 ≤ bs.length then
        some (bs.take (n.toNat / 2)) else none

theorem bytesAvro_lawful : bytesAvro.Lawful fun _ r => r := by
  refine ⟨fun sch => by cases sch; rfl, fun p r bs h => ?_⟩
  simp only [bytesAvro] at h ⊢
  split at h
  · next hlen =>
    cases h
    have hn : (UInt8.ofNat (2 * r.length)).toNat = 2 * r.length := by
      rw [UInt8.toNat_ofNat']
      omega
    simp only [hn]
    rw [if_pos (by omega), Nat.mul_div_cancel_left _ Nat.two_pos, List.take_length]
  · cases h

/-- Two processes encode at the same time, one is refused, and the second reads what the first has
written. -/
def twoProcesses : List (Label (Fin 2) Bytes) :=
  [.encode 0 "events" [7, 8], .encode 1 "events" [9], .configured 1 true, .configured 0 true,
    .publish 257 "\"long\"", .registered 1 (some 258), .registered 0 none,
    .decode 1 [0, 0, 0, 1, 2, 4, 7, 8], .decode 1 [1, 2], .resolved 0 none]

theorem decodes_sent_twoProcesses :
    ∃ t, Run (step bytesAvro fun _ _ => .bytes) Always System.start twoProcesses t ∧
      (t.sent.map Sent.data = [[0, 0, 0, 1, 2, 4, 7, 8]] ∧
        t.decoded.map Decoded.outcome = [.ok [7, 8], .error (.serde badMagic)]) ∧
      Faithful bytesAvro (fun _ r => r) (fun _ _ => .bytes) t := by
  obtain ⟨t, hrun, hp⟩ : ∃ t, Run (step bytesAvro fun _ _ => .bytes) Always System.start
      twoProcesses t ∧ decide (t.sent.map Sent.data = [[0, 0, 0, 1, 2, 4, 7, 8]] ∧
        t.decoded.map Decoded.outcome = [.ok [7, 8], .error (.serde badMagic)]) = true :=
    exists_run_of_execOk (by decide +kernel)
  exact ⟨t, hrun, of_decide_eq_true hp, decodes_sent bytesAvro_lawful hrun⟩

end Kafka.Wire
