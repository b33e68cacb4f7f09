import Hummingbird.Config.Bounds

/-!
Which source wins. What an entry shows is determined by what was loaded so far, not by the
order in which it was: its last programmatic assignment, else the environment, else the last
line of the file, else the default. Every loader that succeeds keeps this.
-/

namespace Hummingbird

def ConfigSet.key : ConfigSet → List Char
  | .kv key _ => key
  | .bool key _ => key
  | .int key _ => key
  | .uint key _ => key
  | .string key _ => key

/-- The value of a text for an entry, if the text is accepted. -/
def ConfigDesc.textValue (d : ConfigDesc) (text : List Char) : Option ConfigValue :=
  (assignFromText ⟨d, .default, d.initial⟩ text .set true).toOption.map (·.value)

/-- The value that a programmatic assignment stores. -/
def ConfigDesc.setValue (d : ConfigDesc) : ConfigSet → Option ConfigValue
  | .kv _ text => d.textValue text
  | .bool _ v => some (.bool v)
  | .int _ v => some (.int v)
  | .uint _ v => some (.uint v)
  | .string _ v => some (.string v)

/-- What a line assigns to a key. -/
def ConfigLine.textFor (key : List Char) : ConfigLine → Option (List Char)
  | .assign k text => if k = key then some text else none
  | _ => none

/-- The value and the source that an entry ends with: the last programmatic assignment if there
is one, else the environment, else the last line for the key, else the default. -/
def expectedEntry (lines : List ConfigLine) (env : List Char → Option (List Char))
    (sets : List ConfigSet) (d : ConfigDesc) : Option (ConfigValue × ConfigSource) :=
  match (sets.filter fun a => a.key = d.key).getLast? with
  | some a => (d.setValue a).map fun v => (v, .set)
  | none =>
      match d.envText env with
      | some raw => (d.textValue raw).map fun v => (v, .env)
      | none =>
          match (lines.filterMap (ConfigLine.textFor d.key)).getLast? with
          | some text => (d.textValue text).map fun v => (v, .file)
          | none => some (d.initial, .default)

/-- The entries of a schema show what was loaded. -/
structure ConfigStore.Shows (cfg : ConfigStore) (schema : List ConfigDesc)
    (lines : List ConfigLine) (env : List Char → Option (List Char))
    (sets : List ConfigSet) : Prop where
  descs : cfg.entries.map (·.desc) = schema
  shown : ∀ (i : Nat) (e : ConfigEntry), cfg.entries[i]? = some e →
    expectedEntry lines env sets e.desc = some (e.value, e.source)

/-- The calls are one reading of a file, one of the environment and the assignments, these in
their order; the flags tell which of the two readings are among them. -/
inductive Interleaving (content : List Char) (env : List Char → Option (List Char)) :
    Bool → Bool → List ConfigSet → List ConfigCall → Prop where
  | done : Interleaving content env false false [] []
  | file {envToCome : Bool} {sets : List ConfigSet} {calls : List ConfigCall}
      {path : List Char} {file : ConfigFile} (hcontent : file.content = .ok content)
      (rest : Interleaving content env false envToCome sets calls) :
      Interleaving content env true envToCome sets (.loadFile path file :: calls)
  | env {fileToCome : Bool} {sets : List ConfigSet} {calls : List ConfigCall}
      (rest : Interleaving content env fileToCome false sets calls) :
      Interleaving content env fileToCome true sets (.loadEnv env :: calls)
  | assign {fileToCome envToCome : Bool} {sets : List ConfigSet} {calls : List ConfigCall}
      {a : ConfigSet} (rest : Interleaving content env fileToCome envToCome sets calls) :
      Interleaving content env fileToCome envToCome (a :: sets) (.assign a :: calls)

/-- The call returns `HBI_OK`. -/
def ConfigStore.Succeeds (cfg : ConfigStore) (c : ConfigCall × (Nat → Bool)) : Prop :=
  (cfg.call c).2 = .ok ()

instance (cfg : ConfigStore) (c : ConfigCall × (Nat → Bool)) : Decidable (cfg.Succeeds c) :=
  inferInstanceAs (Decidable (_ = _))

section Texts

variable {e e' : ConfigEntry} {src : ConfigSource}

/-- What an accepted text makes of an entry depends on its descriptor alone. -/
theorem assignFromText_eq_ok {text : List Char} {allocated : Bool}
    (h : assignFromText e text src allocated = .ok e') :
    ∃ v, e.desc.textValue text = some v ∧ e' = { e with value := v, source := src } := by
  unfold ConfigDesc.textValue
  unfold assignFromText at h ⊢
  cases htype : e.desc.type with
  | bool =>
      simp only [htype] at h ⊢
      cases hparse : parseBool text with
      | none =>
          rw [hparse] at h
          cases h
      | some v =>
          rw [hparse] at h
          cases h
          exact ⟨.bool v, rfl, rfl⟩
  | int =>
      simp only [htype, setInt, Result.ite_errSet_eq_ok] at h ⊢
      obtain ⟨hrest, hrange, h⟩ := h
      cases h
      rw [if_neg hrest, if_neg hrange]
      exact ⟨_, rfl, rfl⟩
  | uint =>
      simp only [htype, setUint, Result.ite_errSet_eq_ok] at h ⊢
      obtain ⟨hminus, hrest, hrange, h⟩ := h
      cases h
      rw [if_neg hminus, if_neg hrest, if_neg hrange]
      exact ⟨_, rfl, rfl⟩
  | string =>
      simp only [htype, setString, Result.ite_errSet_eq_ok] at h ⊢
      obtain ⟨-, h⟩ := h
      cases h
      exact ⟨_, rfl, rfl⟩

end Texts

section Expected

variable {lines : List ConfigLine} {env : List Char → Option (List Char)}
  {sets : List ConfigSet} {d : ConfigDesc} {v : ConfigValue} {src : ConfigSource}

/-- The source of an entry tells what was loaded for it. -/
theorem expectedEntry_source (h : expectedEntry lines env sets d = some (v, src)) :
    (src = .set ↔ (sets.filter fun a => a.key = d.key).getLast? ≠ none) ∧
      (src = .env ↔ (sets.filter fun a => a.key = d.key).getLast? = none ∧
        d.envText env ≠ none) := by
  unfold expectedEntry at h
  cases hset : (sets.filter fun a => a.key = d.key).getLast? with
  | some a =>
      simp only [hset] at h
      obtain ⟨w, -, heq⟩ := Option.map_eq_some_iff.mp h
      cases heq
      simp
  | none =>
      simp only [hset] at h
      cases henv : d.envText env with
      | some raw =>
          simp only [henv] at h
          obtain ⟨w, -, heq⟩ := Option.map_eq_some_iff.mp h
          cases heq
          simp
      | none =>
          simp only [henv] at h
          cases hline : (lines.filterMap (ConfigLine.textFor d.key)).getLast? with
          | some text =>
              simp only [hline] at h
              obtain ⟨w, -, heq⟩ := Option.map_eq_some_iff.mp h
              cases heq
              simp
          | none =>
              simp only [hline] at h
              cases h
              simp

theorem expectedEntry_assign {a : ConfigSet} (hkey : a.key = d.key) :
    expectedEntry lines env (sets ++ [a]) d = (d.setValue a).map fun v => (v, .set) := by
  unfold expectedEntry
  simp [List.filter_append, hkey]

theorem expectedEntry_assign_other {a : ConfigSet} (hkey : a.key ≠ d.key) :
    expectedEntry lines env (sets ++ [a]) d = expectedEntry lines env sets d := by
  unfold expectedEntry
  simp [List.filter_append, hkey]

theorem expectedEntry_line_other {line : ConfigLine} (hline : line.textFor d.key = none) :
    expectedEntry (lines ++ [line]) env sets d = expectedEntry lines env sets d := by
  unfold expectedEntry
  simp [List.filterMap_append, hline]

/-- Above the file the lines do not matter. -/
theorem expectedEntry_above (lines' : List ConfigLine)
    (h : expectedEntry lines env sets d = some (v, src))
    (hrank : ConfigSource.file.rank < src.rank) :
    expectedEntry lines' env sets d = some (v, src) := by
  obtain ⟨hset, henv⟩ := expectedEntry_source h
  unfold expectedEntry at h ⊢
  cases hsets : (sets.filter fun a => a.key = d.key).getLast? with
  | some a =>
      simp only [hsets] at h ⊢
      exact h
  | none =>
      simp only [hsets] at h ⊢
      cases htext : d.envText env with
      | some raw =>
          simp only [htext] at h ⊢
          exact h
      | none =>
          rw [hsets] at hset henv
          rw [htext] at henv
          cases src with
          | default => exact absurd hrank (by decide)
          | file => exact absurd hrank (by decide)
          | env => exact absurd rfl (henv.mp rfl).2
          | set => exact absurd rfl (hset.mp rfl)

theorem expectedEntry_line {key text : List Char} (hkey : key = d.key)
    (h : expectedEntry lines env sets d = some (v, src))
    (hrank : ¬ ConfigSource.file.rank < src.rank) :
    expectedEntry (lines ++ [.assign key text]) env sets d =
      (d.textValue text).map fun v => (v, .file) := by
  obtain ⟨hset, henv⟩ := expectedEntry_source h
  have hsets : (sets.filter fun a => a.key = d.key).getLast? = none := by
    by_contra hne
    rw [hset.mpr hne] at hrank
    exact hrank (by decide)
  have htext : d.envText env = none := by
    by_contra hne
    rw [henv.mpr ⟨hsets, hne⟩] at hrank
    exact hrank (by decide)
  have hlast : ((lines ++ [ConfigLine.assign key text]).filterMap
      (ConfigLine.textFor d.key)).getLast? = some text := by
    simp [List.filterMap_append, ConfigLine.textFor, hkey]
  unfold expectedEntry
  simp only [hsets, htext, hlast]

theorem expectedEntry_env_none
    (h : expectedEntry lines (fun _ => none) sets d = some (v, src))
    (htext : d.envText env = none) : expectedEntry lines env sets d = some (v, src) := by
  have hempty : d.envText (fun _ => none) = none := by
    unfold ConfigDesc.envText
    cases d.env <;> rfl
  unfold expectedEntry at h ⊢
  rw [hempty] at h
  rw [htext]
  exact h

theorem expectedEntry_env_below {env' : List Char → Option (List Char)}
    (h : expectedEntry lines env' sets d = some (v, src))
    (hrank : ConfigSource.env.rank < src.rank) :
    expectedEntry lines env sets d = some (v, src) := by
  obtain ⟨hset, -⟩ := expectedEntry_source h
  unfold expectedEntry at h ⊢
  cases hsets : (sets.filter fun a => a.key = d.key).getLast? with
  | some a =>
      simp only [hsets] at h ⊢
      exact h
  | none =>
      rw [hsets] at hset
      cases src with
      | set => exact absurd rfl (hset.mp rfl)
      | default => exact absurd hrank (by decide)
      | file => exact absurd hrank (by decide)
      | env => exact absurd hrank (by decide)

theorem expectedEntry_env {env' : List Char → Option (List Char)} {raw : List Char}
    (h : expectedEntry lines env' sets d = some (v, src))
    (hrank : ¬ ConfigSource.env.rank < src.rank) (htext : d.envText env = some raw) :
    expectedEntry lines env sets d = (d.textValue raw).map fun v => (v, .env) := by
  obtain ⟨hset, -⟩ := expectedEntry_source h
  have hsets : (sets.filter fun a => a.key = d.key).getLast? = none := by
    by_contra hne
    rw [hset.mpr hne] at hrank
    exact hrank (by decide)
  unfold expectedEntry
  simp only [hsets, htext]

end Expected

section Loading

variable {cfg cfg' : ConfigStore} {schema : List ConfigDesc} {lines : List ConfigLine}
  {env : List Char → Option (List Char)} {sets : List ConfigSet}

/-- Entries of a schema without duplicates are told apart by their keys. -/
theorem ConfigStore.Shows.index_eq (h : cfg.Shows schema lines env sets)
    (hnodup : (schema.map (·.key)).Nodup) {i j : Nat} {e e' : ConfigEntry}
    (he : cfg.entries[i]? = some e) (he' : cfg.entries[j]? = some e')
    (hkey : e.desc.key = e'.desc.key) : i = j := by
  rw [← h.descs, List.map_map] at hnodup
  obtain ⟨hi, rfl⟩ := List.getElem?_eq_some_iff.mp he
  obtain ⟨hj, rfl⟩ := List.getElem?_eq_some_iff.mp he'
  apply (@List.Nodup.getElem_inj_iff _ _ hnodup i (by simpa using hi) j (by simpa using hj)).mp
  simpa using hkey

/-- What a successful assignment to the entry of a key did. -/
theorem assignAt_ok {key : List Char} {i : Nat} {assign : ConfigEntry → Result ConfigEntry}
    (hfind : findEntry cfg key = some i) (h : cfg.assignAt i assign = (cfg', .ok ())) :
    ∃ e e', cfg.entries[i]? = some e ∧ e.desc.key = key ∧ assign e = .ok e' ∧
      cfg' = ⟨cfg.entries.set i e'⟩ := by
  obtain ⟨hi, hkey, -⟩ := List.findIdx?_eq_some_iff_getElem.mp hfind
  have hget := List.getElem?_eq_getElem hi
  unfold ConfigStore.assignAt at h
  rw [hget] at h
  dsimp only at h
  cases hres : assign cfg.entries[i] with
  | error f =>
      rw [hres] at h
      cases h
  | ok e' =>
      rw [hres] at h
      cases h
      exact ⟨_, e', hget, of_decide_eq_true hkey, hres, rfl⟩

/-- Replacing the entry of a key by what is expected of it now. -/
theorem ConfigStore.Shows.set (h : cfg.Shows schema lines env sets)
    (hnodup : (schema.map (·.key)).Nodup) {lines' : List ConfigLine}
    {env' : List Char → Option (List Char)} {sets' : List ConfigSet} {i : Nat}
    {e e' : ConfigEntry} (hget : cfg.entries[i]? = some e) (hdesc : e'.desc = e.desc)
    (hnew : expectedEntry lines' env' sets' e.desc = some (e'.value, e'.source))
    (hother : ∀ d : ConfigDesc, d.key ≠ e.desc.key →
      expectedEntry lines' env' sets' d = expectedEntry lines env sets d) :
    ConfigStore.Shows ⟨cfg.entries.set i e'⟩ schema lines' env' sets' := by
  refine ⟨?_, ?_⟩
  · dsimp only
    rw [List.map_set, hdesc, ← h.descs]
    obtain ⟨hi, rfl⟩ := List.getElem?_eq_some_iff.mp hget
    refine List.ext_getElem? fun j => ?_
    rw [List.getElem?_set]
    split_ifs with hij hlt
    · rw [← hij, List.getElem?_map, hget]
      rfl
    · rw [List.length_map] at hlt
      exact absurd (hij ▸ hi) (hij ▸ hlt)
    · rfl
  · intro j x hx
    dsimp only at hx
    rw [List.getElem?_set] at hx
    split at hx
    · rename_i heq
      subst heq
      split at hx
      · cases hx
        rw [hdesc]
        exact hnew
      · cases hx
    · rename_i hne
      rw [hother x.desc fun hkey => hne (h.index_eq hnodup hget hx hkey.symm)]
      exact h.shown j x hx

theorem ConfigStore.Shows.assign (h : cfg.Shows schema lines env sets)
    (hnodup : (schema.map (·.key)).Nodup) {a : ConfigSet} {allocated : Bool}
    (hok : a.run cfg allocated = (cfg', .ok ())) :
    cfg'.Shows schema lines env (sets ++ [a]) := by
  have hassigned : ∃ i e e' v, cfg.entries[i]? = some e ∧ e.desc.key = a.key ∧
      e.desc.setValue a = some v ∧ e' = { e with value := v, source := .set } ∧
        cfg' = ⟨cfg.entries.set i e'⟩ := by
    have htyped : ∀ {key : List Char} {type : ConfigType} {v : ConfigValue}
        {setter : ConfigEntry → Result ConfigEntry},
        (∀ e e', setter e = .ok e' → e' = { e with value := v, source := .set }) →
        setTyped cfg key type setter = (cfg', .ok ()) →
        ∃ i e e', cfg.entries[i]? = some e ∧ e.desc.key = key ∧
          e' = { e with value := v, source := .set } ∧ cfg' = ⟨cfg.entries.set i e'⟩ := by
      intro key type v setter hsetter hset
      unfold setTyped at hset
      cases hfind : findEntry cfg key with
      | none =>
          rw [hfind] at hset
          cases hset
      | some i =>
          rw [hfind] at hset
          obtain ⟨e, e', hget, hkey, hassign, hcfg⟩ := assignAt_ok hfind hset
          rw [Result.ite_errSet_eq_ok] at hassign
          exact ⟨i, e, e', hget, hkey, hsetter e e' hassign.2, hcfg⟩
    cases a with
    | kv key text =>
        rw [ConfigSet.run, hbiConfigApplyKv, applyText] at hok
        cases hfind : findEntry cfg key with
        | none =>
            rw [hfind] at hok
            cases hok
        | some i =>
            rw [hfind] at hok
            obtain ⟨e, e', hget, hkey, hassign, hcfg⟩ := assignAt_ok hfind hok
            have hrank : ¬ ConfigSource.set.rank < e.source.rank := by
              cases e.source <;> decide
            rw [if_neg hrank] at hassign
            obtain ⟨v, hv, he'⟩ := assignFromText_eq_ok hassign
            exact ⟨i, e, e', v, hget, hkey, hv, he', hcfg⟩
    | bool key v =>
        obtain ⟨i, e, e', hget, hkey, he', hcfg⟩ := htyped (v := .bool v)
          (fun e e' hset => (Except.ok.inj hset).symm) hok
        exact ⟨i, e, e', _, hget, hkey, rfl, he', hcfg⟩
    | int key v =>
        obtain ⟨i, e, e', hget, hkey, he', hcfg⟩ := htyped (v := .int v)
          (fun e e' hset => by
            rw [setInt, Result.ite_errSet_eq_ok] at hset
            exact (Except.ok.inj hset.2).symm) hok
        exact ⟨i, e, e', _, hget, hkey, rfl, he', hcfg⟩
    | uint key v =>
        obtain ⟨i, e, e', hget, hkey, he', hcfg⟩ := htyped (v := .uint v)
          (fun e e' hset => by
            rw [setUint, Result.ite_errSet_eq_ok] at hset
            exact (Except.ok.inj hset.2).symm) hok
        exact ⟨i, e, e', _, hget, hkey, rfl, he', hcfg⟩
    | string key v =>
        obtain ⟨i, e, e', hget, hkey, he', hcfg⟩ := htyped (v := .string v)
          (fun e e' hset => by
            rw [setString, Result.ite_errSet_eq_ok] at hset
            exact (Except.ok.inj hset.2).symm) hok
        exact ⟨i, e, e', _, hget, hkey, rfl, he', hcfg⟩
  obtain ⟨i, e, e', v, hget, hkey, hv, he', rfl⟩ := hassigned
  have hdesc : e'.desc = e.desc := by rw [he']
  apply h.set hnodup hget hdesc
  · subst he'
    rw [expectedEntry_assign hkey.symm, hv]
    rfl
  · intro d hne
    exact expectedEntry_assign_other fun heq => hne (heq.symm.trans hkey.symm)

theorem ConfigStore.Shows.line (h : cfg.Shows schema lines env sets)
    (hnodup : (schema.map (·.key)).Nodup) {key text : List Char} {allocated : Bool}
    (hok : applyText cfg key text .file allocated = (cfg', .ok ())) :
    cfg'.Shows schema (lines ++ [.assign key text]) env sets := by
  unfold applyText at hok
  cases hfind : findEntry cfg key with
  | none =>
      rw [hfind] at hok
      cases hok
  | some i =>
      rw [hfind] at hok
      obtain ⟨e, e', hget, hkey, hassign, rfl⟩ := assignAt_ok hfind hok
      have hshown := h.shown i e hget
      have hother : ∀ d : ConfigDesc, d.key ≠ e.desc.key →
          expectedEntry (lines ++ [.assign key text]) env sets d =
            expectedEntry lines env sets d := by
        intro d hne
        apply expectedEntry_line_other
        exact if_neg fun heq => hne (heq.symm.trans hkey.symm)
      by_cases hrank : ConfigSource.file.rank < e.source.rank
      · rw [if_pos hrank] at hassign
        cases hassign
        exact h.set hnodup hget rfl (expectedEntry_above _ hshown hrank) hother
      · rw [if_neg hrank] at hassign
        obtain ⟨v, hv, he'⟩ := assignFromText_eq_ok hassign
        have hdesc : e'.desc = e.desc := by rw [he']
        refine h.set hnodup hget hdesc ?_ hother
        subst he'
        rw [expectedEntry_line hkey.symm hshown hrank, hv]
        rfl

theorem ConfigStore.Shows.loadLines (h : cfg.Shows schema lines env sets)
    (hnodup : (schema.map (·.key)).Nodup) {path : List Char} {allocated : Nat → Bool}
    {lineno : Nat} {more : List ConfigLine}
    (hok : loadLines path allocated lineno cfg more = (cfg', .ok ())) :
    cfg'.Shows schema (lines ++ more) env sets := by
  induction more generalizing cfg lines lineno with
  | nil =>
      cases hok
      rw [List.append_nil]
      exact h
  | cons line more ih =>
      rw [List.append_cons]
      cases line with
      | blank =>
          refine ih ⟨h.descs, fun i e he => ?_⟩ hok
          rw [expectedEntry_line_other rfl]
          exact h.shown i e he
      | malformed => cases hok
      | assign key text =>
          rw [Hummingbird.loadLines] at hok
          split at hok
          · cases hok
          · rename_i cfg₁ happly
            exact ih (h.line hnodup happly) hok

/-- Reading the environment without a failure visits every entry once. -/
theorem loadEnvLoop_ok {allocated : Nat → Bool} {start : Nat} {es es' : List ConfigEntry}
    (h : loadEnvLoop env allocated start es = (es', .ok ())) :
    ∀ (i : Nat) (e' : ConfigEntry), es'[i]? = some e' →
      ∃ e, es[i]? = some e ∧ loadEnvEntry env (allocated (start + i)) e = .ok e' := by
  induction es generalizing start es' with
  | nil =>
      cases h
      intro i e' hget
      cases hget
  | cons e es ih =>
      rw [loadEnvLoop] at h
      cases hres : loadEnvEntry env (allocated start) e with
      | error f =>
          rw [hres] at h
          cases h
      | ok e₁ =>
          rw [hres] at h
          dsimp only at h
          obtain ⟨rfl, hrest⟩ := Prod.mk.inj h
          intro i e' hget
          cases i with
          | zero =>
              cases hget
              exact ⟨e, rfl, hres⟩
          | succ i =>
              obtain ⟨x, hx, hload⟩ := ih (Prod.ext rfl hrest) i e' hget
              refine ⟨x, hx, ?_⟩
              rw [Nat.add_comm i 1, ← Nat.add_assoc]
              exact hload

theorem loadEnvLoop_descs (env : List Char → Option (List Char)) (allocated : Nat → Bool)
    (start : Nat) (es : List ConfigEntry) :
    (loadEnvLoop env allocated start es).1.map (·.desc) = es.map (·.desc) := by
  have hsteps := loadEnvLoop_step env allocated start es
  generalize (loadEnvLoop env allocated start es).1 = es' at hsteps ⊢
  induction hsteps with
  | nil => rfl
  | cons hhead _ ih =>
      rw [List.map_cons, List.map_cons, ih]
      rcases hhead with rfl | ⟨hdesc, -⟩
      · rfl
      · rw [hdesc]

theorem ConfigStore.Shows.loadEnv (h : cfg.Shows schema lines (fun _ => none) sets)
    {allocated : Nat → Bool} (hok : hbiConfigLoadEnv cfg env allocated = (cfg', .ok ())) :
    cfg'.Shows schema lines env sets := by
  obtain ⟨rfl, hresult⟩ := Prod.mk.inj hok
  refine ⟨(loadEnvLoop_descs env allocated 0 cfg.entries).trans h.descs, ?_⟩
  intro i e' hget
  obtain ⟨e, he, hload⟩ := loadEnvLoop_ok (Prod.ext rfl hresult) i e' hget
  have hshown := h.shown i e he
  unfold loadEnvEntry at hload
  cases htext : e.desc.envText env with
  | none =>
      rw [htext] at hload
      cases hload
      exact expectedEntry_env_none hshown htext
  | some raw =>
      rw [htext] at hload
      dsimp only at hload
      by_cases hrank : ConfigSource.env.rank < e.source.rank
      · rw [if_pos hrank] at hload
        cases hload
        exact expectedEntry_env_below hshown hrank
      · rw [if_neg hrank] at hload
        obtain ⟨v, hv, rfl⟩ := assignFromText_eq_ok hload
        dsimp only
        rw [expectedEntry_env hshown hrank htext, hv]
        rfl

/-- Two stores that show the same are the same. -/
theorem ConfigStore.Shows.unique (h : cfg.Shows schema lines env sets)
    (h' : cfg'.Shows schema lines env sets) : cfg = cfg' := by
  have hentries : cfg.entries = cfg'.entries := by
    have hlen : cfg.entries.length = cfg'.entries.length := by
      have hdescs := congrArg List.length (h.descs.trans h'.descs.symm)
      rwa [List.length_map, List.length_map] at hdescs
    refine List.ext_getElem hlen fun i hi hi' => ?_
    have hdesc : cfg.entries[i].desc = cfg'.entries[i].desc := by
      have hget := congrArg (fun ds => ds[i]?) (h.descs.trans h'.descs.symm)
      simpa [hi, hi'] using hget
    have hshown := h.shown i _ (List.getElem?_eq_getElem hi)
    rw [hdesc, h'.shown i _ (List.getElem?_eq_getElem hi')] at hshown
    obtain ⟨hvalue, hsource⟩ := Prod.mk.inj (Option.some.inj hshown)
    cases hx : cfg.entries[i] with
    | mk d s v =>
        cases hy : cfg'.entries[i] with
        | mk d' s' v' =>
            rw [hx, hy] at hdesc hvalue hsource
            cases hdesc
            cases hvalue
            cases hsource
            rfl
  cases cfg
  cases cfg'
  exact congrArg ConfigStore.mk hentries

/-- A run of the calls shows what each of them loads. -/
theorem Interleaving.shows {content : List Char} {fileToCome envToCome : Bool}
    {sets before : List ConfigSet} {ops : List (ConfigCall × (Nat → Bool))}
    (hnodup : (schema.map (·.key)).Nodup)
    (hcalls : Interleaving content env fileToCome envToCome sets (ops.map Prod.fst))
    (hok : Runs.Along ConfigStore.step ConfigStore.Succeeds cfg ops)
    (h : cfg.Shows schema (if fileToCome then [] else fileLines content)
      (if envToCome then fun _ => none else env) before) :
    (Runs.final ConfigStore.step cfg ops).Shows schema (fileLines content) env
      (before ++ sets) := by
  induction ops generalizing cfg fileToCome envToCome sets before with
  | nil =>
      cases hcalls
      rw [List.append_nil]
      exact h
  | cons op ops ih =>
      obtain ⟨call, allocated⟩ := op
      obtain ⟨hsucceeds, hrest⟩ := hok
      rw [List.map_cons] at hcalls
      cases hcalls with
      | @file _ _ _ path file hcontent rest =>
          apply ih rest hrest
          obtain ⟨-, f, heq⟩ | ⟨-, content', hcontent', heq⟩ :=
            hbiConfigLoadFile_cases cfg path file allocated
          · have herror : hbiConfigLoadFile cfg path file allocated = (_, .ok ()) :=
              Prod.ext rfl hsucceeds
            rw [heq] at herror
            cases herror
          · cases hcontent.symm.trans hcontent'
            have hlines := h.loadLines hnodup (heq.symm.trans (Prod.ext rfl hsucceeds))
            exact hlines
      | env rest =>
          apply ih rest hrest
          exact h.loadEnv (Prod.ext rfl hsucceeds)
      | @assign _ _ _ _ a rest =>
          rw [List.append_cons]
          apply ih rest hrest
          exact h.assign hnodup (Prod.ext rfl hsucceeds)

end Loading

/-- An accepted schema has no key twice. -/
theorem validateSchema_nodup {before schema : List ConfigDesc}
    (h : validateSchema before schema = .ok ()) (hbefore : (before.map (·.key)).Nodup) :
    ((before ++ schema).map (·.key)).Nodup := by
  induction schema generalizing before with
  | nil =>
      rw [List.append_nil]
      exact hbefore
  | cons d ds ih =>
      rw [validateSchema, Result.ite_errSet_eq_ok, Result.ite_errSet_eq_ok,
        Result.ite_errSet_eq_ok, Result.ite_errSet_eq_ok] at h
      obtain ⟨hnew, -, -, -, h⟩ := h
      rw [List.append_cons]
      apply ih h
      rw [List.map_append, List.nodup_append]
      refine ⟨hbefore, List.nodup_singleton _, ?_⟩
      intro a ha b hb heq
      obtain rfl := List.mem_singleton.mp hb
      obtain ⟨p, hp, hkey⟩ := List.mem_map.mp ha
      exact hnew (List.any_eq_true.mpr ⟨p, hp, decide_eq_true (hkey.trans heq)⟩)

/-- Any two interleavings of one file, one environment and the same assignments in which every
call succeeds lead to the same store, and it shows the value of the highest source of each
key. -/
theorem config_precedence {schema : List ConfigDesc} {blocks : ConfigBlocks}
    {cfg : ConfigStore} (hcreate : hbiConfigCreate schema blocks = .ok cfg)
    {content : List Char} {env : List Char → Option (List Char)} {sets : List ConfigSet}
    {ops ops' : List (ConfigCall × (Nat → Bool))}
    (hcalls : Interleaving content env true true sets (ops.map Prod.fst))
    (hcalls' : Interleaving content env true true sets (ops'.map Prod.fst))
    (hok : Runs.Along ConfigStore.step ConfigStore.Succeeds cfg ops)
    (hok' : Runs.Along ConfigStore.step ConfigStore.Succeeds cfg ops') :
    Runs.final ConfigStore.step cfg ops = Runs.final ConfigStore.step cfg ops' ∧
      (Runs.final ConfigStore.step cfg ops).Shows schema (fileLines content) env sets := by
  obtain ⟨hvalid, rfl⟩ := hbiConfigCreate_eq hcreate
  have hnodup := validateSchema_nodup hvalid List.nodup_nil
  have hstart : ConfigStore.Shows ⟨schema.map fun d => ⟨d, .default, d.initial⟩⟩ schema []
      (fun _ => none) [] := by
    refine ⟨?_, ?_⟩
    · rw [List.map_map]
      exact List.map_id schema
    · intro i e he
      rw [List.getElem?_map] at he
      obtain ⟨d, -, rfl⟩ := Option.map_eq_some_iff.mp he
      have hempty : d.envText (fun _ => none) = none := by
        unfold ConfigDesc.envText
        cases d.env <;> rfl
      unfold expectedEntry
      simp [hempty]
  have hshows := hcalls.shows hnodup hok hstart
  have hshows' := hcalls'.shows hnodup hok' hstart
  exact ⟨hshows.unique hshows', hshows⟩

/-- The key `t`, read from the environment as `T`, and free of bounds. -/
def threadsEnvDesc : ConfigDesc :=
  ⟨['t'], .int, some ['T'], false, 1, 0, none, 0, 0, 0, 0⟩

/-- An environment that holds one variable. -/
def threadsEnv (name : List Char) : Option (List Char) := if name = ['T'] then some ['3'] else none

/-- The file, the environment and the setter in this order and in the opposite one. -/
theorem config_precedence_threads :
    let content := "t=2\n".toList
    let file : ConfigCall := .loadFile ['f'] ⟨.ok (), .ok 4, true, .ok content⟩
    let set : ConfigSet := .int ['t'] 4
    let cfg : ConfigStore := ⟨[⟨threadsEnvDesc, .default, .int 1⟩]⟩
    let ops : List (ConfigCall × (Nat → Bool)) :=
      [(file, fun _ => true), (.loadEnv threadsEnv, fun _ => true), (.assign set, fun _ => true)]
    Runs.final ConfigStore.step cfg ops = Runs.final ConfigStore.step cfg ops.reverse ∧
      (Runs.final ConfigStore.step cfg ops).Shows [threadsEnvDesc] (fileLines content)
        threadsEnv [set] := by
  have hcreate : hbiConfigCreate [threadsEnvDesc] grantedBlocks =
      .ok ⟨[⟨threadsEnvDesc, .default, .int 1⟩]⟩ := by decide
  apply config_precedence hcreate
  · exact .file rfl (.env (.assign .done))
  · exact .assign (.env (.file rfl .done))
  · decide
  · decide

end Hummingbird
