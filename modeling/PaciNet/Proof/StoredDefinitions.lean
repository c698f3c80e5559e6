import PaciNet.Proof.ConditionParsing
import PaciNet.Storage.Database
import PaciNet.Storage.Json
import PaciNet.Storage.Memory
import PaciNet.Storage.Timestamps

/-!
# Definitions that were stored

The memory backend hands out the definition it was given. The SQLite backend hands out what
`serde_json` reads from the text it wrote, and two things are lost on that way. A threshold that
is not finite, which YAML can denote, is written as null and read as missing; and of a compound
condition nothing is read but the empty simple condition, which comes before it.

**A definition that was accepted survives if and only if no transition waits for a compound
condition and every threshold is finite and read back as itself** (`definitionSurvives_iff`).
Nothing else in a definition is lost, the actions least of all (`ActionDefinition.codec_faithful`).
-/

set_option autoImplicit false

namespace PaciNet

open Lib

/-! ## The law -/

/-- A definition that was stored is found again: it is the same, and `validate` accepts it. -/
def ReturnsDefinition (σ : Type) [Storage σ] (d : FsmDefinition) : Prop :=
  ∀ (s : σ) (now now' : DateTime), (Storage.call now (.storeFsmDefinition d) s).1 = .ok () →
    ∃ d', (Storage.call now' (.getFsmDefinition d.name)
        (Storage.call now (.storeFsmDefinition d) s).2).1 = .ok (some d') ∧
      d' = d ∧ d'.validate = .ok ()

/-- **The definition survives SQLite.** -/
def SurvivesSqlite [Rfc3339] [JsonText] (d : FsmDefinition) : Prop :=
  ReturnsDefinition SqliteStorage d

/-- The thresholds are finite and read back as they were. -/
def CounterCondition.JsonSafe [JsonText] (cc : CounterCondition) : Prop :=
  ∀ x, x ∈ cc.rateAbove ∨ x ∈ cc.rateBelow → x.isFinite = true ∧ JsonText.readFloat x = x

def ConditionDefinition.JsonSafe [JsonText] : ConditionDefinition → Prop
  | .counter cc => cc.JsonSafe
  | .simple _ => True
  | .compound _ _ _ => False

/-- The condition of every transition is safe. -/
def FsmDefinition.JsonSafe [JsonText] (d : FsmDefinition) : Prop :=
  ∀ e ∈ d.states.entries, ∀ t ∈ e.2.transitions, ∀ cond ∈ t.when?, cond.JsonSafe

/-! ## What has no threshold -/

section Faithful

variable (f : F64 → F64)

theorem u32_faithful : u32.Faithful f := Codec.nat_faithful f _

theorem u64_faithful : u64.Faithful f := Codec.nat_faithful f _

theorem FsmKind.codec_survives (kind : FsmKind) : FsmKind.codec.Survives f kind := by
  cases kind <;> rfl

theorem NodeSelector.codec_faithful : NodeSelector.codec.Faithful f := by
  refine Codec.record_faithful (by decide) ⟨?_, ?_, trivial⟩
  · refine Field.orDefault_faithful ?_ (Codec.dict_faithful (Codec.text_faithful f))
    exact Codec.dict_survives.2 (by simp)
  · exact Field.optional_faithful (u32_faithful f)

theorem CompileOptions.codec_faithful : CompileOptions.codec.Faithful f := by
  have hbool (b : Bool) : (Field.orDefault b .bool).Faithful f :=
    Field.orDefault_faithful (Codec.bool_survives f b) (Codec.bool_faithful f)
  have htext (s : String) : (Field.orDefault s .text).Faithful f :=
    Field.orDefault_faithful (Codec.text_survives f s) (Codec.text_faithful f)
  have hnat (n : Nat) (hn : n < 4294967296) : (Field.orDefault n u32).Faithful f :=
    Field.orDefault_faithful (Codec.nat_survives f hn) (u32_faithful f)
  refine Codec.record_faithful (by decide) ?_
  exact ⟨hbool _, hbool _, hbool _, hbool _, hnat _ (by decide), htext _, hbool _,
    hnat _ (by decide), hnat _ (by decide), hbool _, hbool _, hnat _ (by decide), hbool _,
    hnat _ (by decide), trivial⟩

theorem DeployAction.codec_faithful : DeployAction.codec.Faithful f := by
  refine Codec.record_faithful (by decide) ⟨?_, ?_, ?_, trivial⟩
  · exact Field.required_faithful (NodeSelector.codec_faithful f)
  · exact Field.optional_faithful (u32_faithful f)
  · exact Field.optional_faithful (CompileOptions.codec_faithful f)

theorem RollbackTarget.codec_faithful : RollbackTarget.codec.Faithful f := by
  intro target h
  cases target with
  | previous => rfl
  | version v =>
    -- the version was read as a `u64`
    have hv : u64.Readable v := by
      obtain ⟨c, hc⟩ := h
      simp only [RollbackTarget.codec] at hc
      split at hc
      · cases hc
      · obtain ⟨n, hn, heq⟩ := Option.map_eq_some_iff.1 hc
        cases heq
        exact ⟨_, hn⟩
      · cases hc
    have hread : u64.read ((u64.write v).mapFloats f) = some v := u64_faithful f v hv
    rw [Codec.Survives, RollbackTarget.codec]
    simp only [Content.mapFloats_map, List.map_cons, List.map_nil, hread, Option.map_some]

theorem RollbackAction.codec_faithful : RollbackAction.codec.Faithful f := by
  refine Codec.record_faithful (by decide) ⟨?_, trivial⟩
  exact Field.required_faithful (RollbackTarget.codec_faithful f)

theorem BasicAuth.codec_faithful : BasicAuth.codec.Faithful f := by
  refine Codec.record_faithful (by decide) ⟨?_, ?_, trivial⟩
  · exact Field.required_faithful (Codec.text_faithful f)
  · exact Field.required_faithful (Codec.text_faithful f)

theorem WebhookConfig.codec_faithful : WebhookConfig.codec.Faithful f := by
  have htext : (Field.optional .text).Faithful f := Field.optional_faithful (Codec.text_faithful f)
  refine Codec.record_faithful (by decide) ⟨?_, htext, htext, ?_, ?_, ?_, ?_, trivial⟩
  · exact Field.required_faithful (Codec.text_faithful f)
  · exact Field.optional_faithful (BasicAuth.codec_faithful f)
  · exact Field.optional_faithful (u64_faithful f)
  · exact Field.optional_faithful (u32_faithful f)
  · refine Field.orDefault_faithful ?_ (Codec.dict_faithful (Codec.text_faithful f))
    exact Codec.dict_survives.2 (by simp)

theorem AlertAction.codec_faithful : AlertAction.codec.Faithful f := by
  refine Codec.record_faithful (by decide) ⟨?_, ?_, ?_, trivial⟩
  · exact Field.optional_faithful (Codec.text_faithful f)
  · exact Field.required_faithful (Codec.text_faithful f)
  · exact Field.optional_faithful (WebhookConfig.codec_faithful f)

/-- **An action survives**, whatever is done to floats: there is none in it. -/
theorem ActionDefinition.codec_faithful : ActionDefinition.codec.Faithful f := by
  refine Codec.record_faithful (by decide) ⟨?_, ?_, ?_, trivial⟩
  · exact Field.optional_faithful (DeployAction.codec_faithful f)
  · exact Field.optional_faithful (RollbackAction.codec_faithful f)
  · exact Field.optional_faithful (AlertAction.codec_faithful f)

end Faithful

/-! ## Conditions -/

section Conditions

variable [JsonText]

/-- What is read for a threshold that was stored. -/
def rereadF64 (x : F64) : Option F64 := if x.isFinite then some (JsonText.readFloat x) else none

/-- What is read for a counter condition that was stored. -/
def CounterCondition.reread (cc : CounterCondition) : CounterCondition :=
  { cc with
    rateAbove := cc.rateAbove.bind rereadF64
    rateBelow := cc.rateBelow.bind rereadF64 }

theorem bind_rereadF64_eq_self {o : Option F64} :
    o.bind rereadF64 = o ↔ ∀ x ∈ o, x.isFinite = true ∧ JsonText.readFloat x = x := by
  cases o with
  | none => simp
  | some x => by_cases hx : x.isFinite = true <;> simp [rereadF64, hx]

theorem CounterCondition.reread_eq_self {cc : CounterCondition} :
    cc.reread = cc ↔ cc.JsonSafe := by
  have hfields : cc.reread = cc ↔
      cc.rateAbove.bind rereadF64 = cc.rateAbove ∧ cc.rateBelow.bind rereadF64 = cc.rateBelow := by
    cases cc
    simp [reread]
  rw [hfields, bind_rereadF64_eq_self, bind_rereadF64_eq_self, JsonSafe]
  constructor
  · intro h x hx
    exact hx.elim (h.1 x) (h.2 x)
  · intro h
    exact ⟨fun x hx => h x (.inl hx), fun x hx => h x (.inr hx)⟩

/-- A stored counter condition reads as one without the thresholds that are not finite. -/
theorem CounterCondition.ofContent_stored (cc : CounterCondition) :
    ofContent ((cc.toContent true).mapFloats JsonText.readFloat) = some cc.reread := by
  let fs := cc.toFields.map fun e => (e.1, e.2.map (Content.mapFloats JsonText.readFloat))
  have hnd : (fs.map Prod.fst).Nodup := show names.Nodup by decide
  have hstored : (cc.toContent true).mapFloats JsonText.readFloat = .struct true fs :=
    Content.mapFloats_struct _ _ _
  have htext (k : String) (o : Option String)
      (hk : (k, (o.map Content.str).map (Content.mapFloats JsonText.readFloat)) ∈ fs) :
      Content.optional readString ((Content.struct true fs).get names k) = some o := by
    rw [Option.map_map] at hk
    exact Content.optional_get_struct hnd hk names (fun _ _ => rfl) (by simp)
  have hrate (k : String) (o : Option F64)
      (hk : (k, (o.map writeF64).map (Content.mapFloats JsonText.readFloat)) ∈ fs) :
      Content.optional readF64 ((Content.struct true fs).get names k) =
        some (o.bind rereadF64) := by
    cases o with
    | none =>
      rw [Content.get_struct_none hnd hk]
      rfl
    | some x =>
      rw [Content.get_struct_some hnd hk]
      show Content.optional readF64 (some ((writeF64 x).mapFloats JsonText.readFloat)) =
        some (rereadF64 x)
      by_cases hx : x.isFinite = true
      · rw [writeF64, if_pos hx, rereadF64, if_pos hx, Content.mapFloats]
        rfl
      · rw [writeF64, if_neg hx, rereadF64, if_neg hx, Content.mapFloats]
        rfl
  have hcounter : (Content.struct true fs).get names "counter" = some (.str cc.counter) :=
    Content.get_struct_some hnd (by simp [fs, toFields]) names
  have htotal : Content.optional readU64 ((Content.struct true fs).get names "total_above") =
      some cc.totalAbove := by
    have hk : ("total_above", cc.totalAbove.map (Content.mapFloats JsonText.readFloat ∘ writeU64)) ∈
        fs := by simp [fs, toFields]
    exact Content.optional_get_struct hnd hk names (fun n _ => readU64_writeU64 n)
      (by simp [writeU64])
  rw [hstored, ofContent, hcounter, htotal,
    hrate "rate_above" cc.rateAbove (by simp [fs, toFields]),
    hrate "rate_below" cc.rateBelow (by simp [fs, toFields]),
    htext "for" cc.forDuration (by simp [fs, toFields]),
    htext "aggregate" cc.aggregate (by simp [fs, toFields]),
    htext "field" cc.field (by simp [fs, toFields]), Content.fields_struct hnd]
  rfl

/-- **A condition survives if and only if it is safe.** -/
theorem ConditionDefinition.codec_survives_iff (cond : ConditionDefinition) :
    ConditionDefinition.codec.Survives JsonText.readFloat cond ↔ cond.JsonSafe := by
  cases cond with
  | counter cc =>
    have hread : codec.read ((codec.write (.counter cc)).mapFloats JsonText.readFloat) =
        some (.counter cc.reread) := by
      show ofContent ((toContent true (.counter cc)).mapFloats JsonText.readFloat) = _
      rw [toContent, ofContent, cc.ofContent_stored]
      rfl
    rw [Codec.Survives, hread, JsonSafe, ← CounterCondition.reread_eq_self]
    simp
  | simple s =>
    have hsame : (s.toContent true).mapFloats JsonText.readFloat = s.toContent true := by
      rw [SimpleCondition.toContent, Content.mapFloats_struct]
      simp [SimpleCondition.toFields, Function.comp_def]
    refine iff_of_true ?_ trivial
    show ofContent ((toContent true (.simple s)).mapFloats JsonText.readFloat) = _
    have hread := ofContent_simple true s
    rw [toContent] at hread ⊢
    rw [hsame, hread]
  | compound and or not =>
    obtain ⟨o₁, o₂, o₃, h⟩ := exists_toContent_compound true and or not
    have hread : codec.read ((codec.write (.compound and or not)).mapFloats JsonText.readFloat) =
        some (.simple ⟨none, none, none⟩) := by
      show ofContent ((toContent true (.compound and or not)).mapFloats JsonText.readFloat) = _
      rw [h, Content.mapFloats_struct]
      exact ofContent_compoundKeys true _ _ _
    rw [Codec.Survives, hread, JsonSafe]
    simp

end Conditions

/-! ## Definitions -/

section Definitions

variable [JsonText]

/-- The conditions of the transitions are safe. -/
def StateDefinition.JsonSafe (s : StateDefinition) : Prop :=
  ∀ t ∈ s.transitions, ∀ cond ∈ t.when?, cond.JsonSafe

theorem TransitionDefinition.codec_survives_iff (t : TransitionDefinition) :
    TransitionDefinition.codec.Survives JsonText.readFloat t ↔ ∀ cond ∈ t.when?, cond.JsonSafe := by
  rw [TransitionDefinition.codec, Codec.survives_record (by decide)]
  simp only [Fields.Survives, Field.required_survives, Field.optional_survives,
    ConditionDefinition.codec_survives_iff]
  constructor
  · intro h
    exact h.2.1
  · intro h
    exact ⟨Codec.text_survives _ _, h, fun s _ => Codec.text_survives _ s, trivial⟩

theorem StateDefinition.codec_survives_iff {s : StateDefinition}
    (h : StateDefinition.codec.Readable s) :
    StateDefinition.codec.Survives JsonText.readFloat s ↔ s.JsonSafe := by
  obtain ⟨haction, -⟩ := Codec.readable_of_record h
  have haction := Field.optional_faithful (ActionDefinition.codec_faithful JsonText.readFloat) _
    haction
  rw [StateDefinition.codec, Codec.survives_record (by decide)]
  simp only [Fields.Survives, Field.orDefault_survives, Codec.list_survives,
    TransitionDefinition.codec_survives_iff]
  constructor
  · intro h
    exact h.2.1
  · intro h
    exact ⟨haction, h, Codec.bool_survives _ _, trivial⟩

/-- **A definition that was read from YAML survives if and only if it is safe.** -/
theorem FsmDefinition.codec_survives_iff {d : FsmDefinition} (h : d.FromYaml) :
    FsmDefinition.codec.Survives JsonText.readFloat d ↔ d.JsonSafe := by
  obtain ⟨-, -, -, -, hstates, -⟩ := Codec.readable_of_record h
  have hstates := Codec.readable_of_dict (Field.readable_of_required hstates)
  have hiff : (Codec.dict StateDefinition.codec).Survives JsonText.readFloat d.states ↔
      d.JsonSafe := by
    rw [Codec.dict_survives]
    refine forall₂_congr fun e he => ?_
    exact StateDefinition.codec_survives_iff (hstates e he)
  rw [FsmDefinition.codec, Codec.survives_record (by decide)]
  simp only [Fields.Survives, Field.required_survives]
  constructor
  · intro hd
    exact hiff.1 hd.2.2.2.2.1
  · intro hd
    exact ⟨Codec.text_survives _ _, Codec.text_survives _ _, FsmKind.codec_survives _ _,
      Codec.text_survives _ _, hiff.2 hd, trivial⟩

end Definitions

/-! ## The backends -/

/-- The memory backend keeps the definition itself. -/
theorem memory_returnsDefinition {d : FsmDefinition} (hvalid : d.validate = .ok ()) :
    ReturnsDefinition MemoryStorage d := by
  intro s now now' _
  refine ⟨d, ?_, rfl, hvalid⟩
  show Except.ok ((s.fsmDefinitions.insert d).get? d.name) = _
  rw [Table.get?_insert_self]

section Sqlite

variable [Rfc3339] [JsonText]

/-- What is found in the database is what is read from the text that was stored. -/
theorem getFsmDefinition_stored {d : FsmDefinition} {s : SqliteStorage} {now now' : DateTime}
    (hstored : (Storage.call now (.storeFsmDefinition d) s).1 = .ok ()) :
    (Storage.call now' (.getFsmDefinition d.name)
        (Storage.call now (.storeFsmDefinition d) s).2).1 =
      (SerdeJson.readDefinition d).map some := by
  have hlock : s.poisoned = false := by
    cases hp : s.poisoned with
    | false => rfl
    | true =>
      have hpanic : (s.locked fun db => db.storeFsmDefinition now d).1 =
          .error SqliteStorage.panicked := by
        rw [SqliteStorage.locked, hp]
        rfl
      cases hpanic.symm.trans hstored
  have hstore : (Storage.call now (.storeFsmDefinition d) s).2 =
      { s with conn := (s.conn.storeFsmDefinition now d).2 } :=
    congrArg Prod.snd (SqliteStorage.locked_eq hlock _)
  have hlock' : ({ s with conn := (s.conn.storeFsmDefinition now d).2 } :
      SqliteStorage).poisoned = false := hlock
  rw [hstore]
  refine (congrArg Prod.fst (SqliteStorage.reading_eq hlock' _)).trans ?_
  show Database.getFsmDefinition _ _ = _
  rw [Database.getFsmDefinition]
  have hrow : (s.conn.storeFsmDefinition now d).2.fsmDefinitions.get? d.name =
      some ⟨d.name, d.kind.toString, d, now⟩ := Table.get?_insert_self _ _
  rw [hrow]

omit [Rfc3339] in
/-- What is found is what is read from the document of the text. -/
theorem readDefinition_eq_ok_iff {d d' : FsmDefinition} :
    (SerdeJson.readDefinition d).map some = .ok (some d') ↔
      FsmDefinition.codec.read d.stored = some d' := by
  simp only [SerdeJson.readDefinition]
  cases FsmDefinition.codec.read d.stored <;> simp [Except.map]

/-- **A definition that was accepted survives SQLite if and only if it is safe**, as every one
    survives the memory backend. -/
theorem definitionSurvives_iff (d : FsmDefinition) (hyaml : d.FromYaml)
    (hvalid : d.validate = .ok ()) :
    ReturnsDefinition MemoryStorage d ∧ (SurvivesSqlite d ↔ d.JsonSafe) := by
  refine ⟨memory_returnsDefinition hvalid, ?_⟩
  rw [← FsmDefinition.codec_survives_iff hyaml]
  constructor
  · intro h
    obtain ⟨d', hd', rfl, -⟩ := h .inMemory 0 0 rfl
    rw [getFsmDefinition_stored rfl] at hd'
    exact readDefinition_eq_ok_iff.1 hd'
  · intro h s now now' hstored
    refine ⟨d, ?_, rfl, hvalid⟩
    rw [getFsmDefinition_stored hstored]
    exact readDefinition_eq_ok_iff.2 h

end Sqlite

/-! ## A threshold -/

/-- A rate above `x`. -/
def floodAbove (x : F64) : ConditionDefinition :=
  .counter ⟨"syn_flood", some x, none, none, none, none, none⟩

/-- Wait until the rate is above `x`. -/
def awaitFlood (x : F64) : FsmDefinition where
  name := "flood"
  description := "wait for a flood"
  kind := .adaptivePolicy
  initial := "wait"
  states := Codec.ofEntries
    [⟨"wait", ⟨none, [⟨"done", some (floodAbove x), none⟩], false⟩⟩, ⟨"done", ⟨none, [], true⟩⟩]

/-- The document of that definition. -/
def awaitFloodDocument (x : F64) : Content F64 :=
  .map [("name", .str "flood"), ("description", .str "wait for a flood"),
    ("kind", .str "adaptive_policy"), ("initial", .str "wait"),
    ("states", .map
      [("wait", .map [("transitions", .seq [.map [("to", .str "done"),
        ("when", .map [("counter", .str "syn_flood"), ("rate_above", .float x)])]])]),
       ("done", .map [("terminal", .bool true)])])]

theorem awaitFlood_fromYaml (x : F64) : (awaitFlood x).FromYaml := by
  have hcond : ConditionDefinition.codec.read
      (.map [("counter", .str "syn_flood"), ("rate_above", .float x)]) = some (floodAbove x) := by
    have hcounter : CounterCondition.ofContent
        (.map [("counter", .str "syn_flood"), ("rate_above", .float x)]) =
          some ⟨"syn_flood", some x, none, none, none, none, none⟩ := rfl
    show ConditionDefinition.ofContent _ = _
    rw [ConditionDefinition.ofContent, hcounter]
    rfl
  have htransition : TransitionDefinition.codec.read (.map [("to", .str "done"),
      ("when", .map [("counter", .str "syn_flood"), ("rate_above", .float x)])]) =
        some ⟨"done", some (floodAbove x), none⟩ := by
    refine Codec.read_record (by simp) ⟨rfl, ?_, rfl, trivial⟩
    exact congrArg (Option.map some) hcond
  have hwait : StateDefinition.codec.read (.map [("transitions", .seq [.map [("to", .str "done"),
      ("when", .map [("counter", .str "syn_flood"), ("rate_above", .float x)])]])]) =
        some ⟨none, [⟨"done", some (floodAbove x), none⟩], false⟩ := by
    refine Codec.read_record (by simp) ⟨rfl, ?_, rfl, trivial⟩
    exact Codec.mapM_eq_some.2 (.cons htransition .nil)
  have hdone : StateDefinition.codec.read (.map [("terminal", .bool true)]) =
      some ⟨none, [], true⟩ := rfl
  refine ⟨awaitFloodDocument x, Codec.read_record (by simp) ⟨rfl, rfl, rfl, rfl, ?_, trivial⟩⟩
  refine Option.map_eq_some_iff.2 ⟨[⟨"wait", _⟩, ⟨"done", _⟩],
    Codec.mapM_eq_some.2 (.cons ?_ (.cons ?_ .nil)), rfl⟩
  · exact Codec.readEntry_eq_some "wait" hwait
  · exact Codec.readEntry_eq_some "done" hdone

theorem awaitFlood_valid (x : F64) : (awaitFlood x).validate = .ok () := rfl

theorem awaitFlood_jsonSafe_iff [JsonText] (x : F64) :
    (awaitFlood x).JsonSafe ↔ x.isFinite = true ∧ JsonText.readFloat x = x := by
  have hentries : (awaitFlood x).states.entries =
      [⟨"wait", ⟨none, [⟨"done", some (floodAbove x), none⟩], false⟩⟩,
       ⟨"done", ⟨none, [], true⟩⟩] := rfl
  simp [FsmDefinition.JsonSafe, hentries, floodAbove, ConditionDefinition.JsonSafe,
    CounterCondition.JsonSafe]

/-- A finite threshold is kept. -/
theorem definitionSurvives_awaitFlood : ReturnsDefinition MemoryStorage (awaitFlood (.finite 100)) ∧
    @SurvivesSqlite .textual .sample (awaitFlood (.finite 100)) := by
  obtain ⟨hmemory, hsqlite⟩ := @definitionSurvives_iff .textual .sample
    (awaitFlood (.finite 100)) (awaitFlood_fromYaml _) (awaitFlood_valid _)
  refine ⟨hmemory, hsqlite.2 ?_⟩
  exact (@awaitFlood_jsonSafe_iff .sample _).2 ⟨rfl, rfl⟩

/-- `rate_above: .inf` is read back as a condition without a threshold, even where every finite
    float is read as itself. -/
theorem not_definitionSurvives : ¬ ∀ d : FsmDefinition, d.FromYaml → d.validate = .ok () →
    @SurvivesSqlite .textual .sample d := by
  intro h
  have hkeeps := h (awaitFlood .inf) (awaitFlood_fromYaml _) (awaitFlood_valid _)
  obtain ⟨d', hd', rfl, -⟩ := hkeeps .inMemory 0 0 rfl
  rw [@getFsmDefinition_stored .textual .sample _ _ _ _ rfl] at hd'
  have hread := (@readDefinition_eq_ok_iff .sample _ _).1 hd'
  have hsafe := (@FsmDefinition.codec_survives_iff .sample _ (awaitFlood_fromYaml .inf)).1 hread
  exact Bool.noConfusion ((@awaitFlood_jsonSafe_iff .sample _).1 hsafe).1

end PaciNet
