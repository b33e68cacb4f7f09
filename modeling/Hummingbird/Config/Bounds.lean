import Hummingbird.Config.Store

/-!
Bounds and failures. Whatever a value comes from, it is checked against the bounds of its entry
before it is stored; only the defaults of a schema are taken as they are. A call that fails
leaves the entry that it failed on, and a file has taken effect up to the line that failed.
-/

namespace Hummingbird

/-- The value of a bounded entry lies within the bounds. -/
structure ConfigEntry.InBounds (e : ConfigEntry) : Prop where
  int : e.desc.type = .int → ¬ (e.desc.minInt = 0 ∧ e.desc.maxInt = 0) →
    ∃ v, e.value = .int v ∧ e.desc.minInt ≤ v ∧ v ≤ e.desc.maxInt
  uint : e.desc.type = .uint → ¬ (e.desc.minUint = 0 ∧ e.desc.maxUint = 0) →
    ∃ v, e.value = .uint v ∧ e.desc.minUint ≤ v ∧ v ≤ e.desc.maxUint

/-- An entry that was assigned is in bounds, and one that was not has its default. -/
structure ConfigEntry.Kept (e : ConfigEntry) : Prop where
  default : e.source = .default → e.value = e.desc.initial
  assigned : e.source ≠ .default → e.InBounds

/-- What a call may do to an entry. -/
def ConfigEntry.Step (e e' : ConfigEntry) : Prop :=
  e' = e ∨ e'.desc = e.desc ∧ e'.source ≠ .default ∧ e'.InBounds

/-- A file that cannot be opened or sized, is above 16 MiB, gets no buffer, or whose reading
fails: no line of it is looked at. -/
def ConfigFile.Unread (file : ConfigFile) : Prop :=
  (∃ f, file.opened = .error f) ∨ (∃ f, file.size = .error f) ∨
    (∃ size, file.size = .ok size ∧ 16 * 1024 * 1024 < size) ∨ file.buffer = false ∨
    ∃ f, file.content = .error f

/-- What a call that fails leaves: an assignment changes nothing; reading the environment
leaves the entry it failed on and those behind it; a file that was not read leaves everything;
reading one stops in front of the line it failed on, and keeps what the lines before it did. -/
def ConfigStore.FailureContract (cfg : ConfigStore) : ConfigCall × (Nat → Bool) → Prop
  | (.assign a, allocated) =>
      ∀ f, (cfg.call (.assign a, allocated)).2 = .error f →
        cfg.step (.assign a, allocated) = cfg
  | (.loadEnv env, allocated) =>
      ∀ f, (cfg.call (.loadEnv env, allocated)).2 = .error f →
        ∃ i e raw, cfg.entries[i]? = some e ∧ e.desc.envText env = some raw ∧
          assignFromText e raw .env (allocated i) = .error f ∧
          (cfg.step (.loadEnv env, allocated)).entries.drop i = cfg.entries.drop i
  | (.loadFile path file, allocated) =>
      ∀ f, (cfg.call (.loadFile path file, allocated)).2 = .error f →
        file.Unread ∧ cfg.step (.loadFile path file, allocated) = cfg ∨
        ¬ file.Unread ∧ ∃ content before line behind, file.content = .ok content ∧
          fileLines content = before ++ line :: behind ∧
          loadLines path allocated 1 cfg before =
            (cfg.step (.loadFile path file, allocated), .ok ()) ∧
          loadLines path allocated (1 + before.length)
            (cfg.step (.loadFile path file, allocated)) [line] =
              (cfg.step (.loadFile path file, allocated), .error f)

theorem ConfigEntry.Step.refl (e : ConfigEntry) : e.Step e := Or.inl rfl

theorem ConfigEntry.Step.trans {e e' e'' : ConfigEntry} (h : e.Step e') (h' : e'.Step e'') :
    e.Step e'' := by
  rcases h' with rfl | ⟨hdesc', hsource, hbounds⟩
  · exact h
  · rcases h with rfl | ⟨hdesc, -, -⟩
    · exact Or.inr ⟨hdesc', hsource, hbounds⟩
    · exact Or.inr ⟨hdesc'.trans hdesc, hsource, hbounds⟩

theorem ConfigEntry.Step.kept {e e' : ConfigEntry} (h : e.Step e') (he : e.Kept) : e'.Kept := by
  rcases h with rfl | ⟨-, hsource, hbounds⟩
  · exact he
  · exact ⟨fun hdefault => absurd hdefault hsource, fun _ => hbounds⟩

section Setters

variable {e e' : ConfigEntry} {src : ConfigSource} (hsrc : src ≠ .default)

include hsrc

theorem setBool_step {v : Bool} (htype : e.desc.type = .bool)
    (h : setBool e v src = .ok e') : e.Step e' := by
  cases h
  refine Or.inr ⟨rfl, hsrc, ?_, ?_⟩
  · intro hint
    cases htype.symm.trans hint
  · intro huint
    cases htype.symm.trans huint

theorem setInt_step {v : Int} (htype : e.desc.type = .int)
    (h : setInt e v src = .ok e') : e.Step e' := by
  rw [setInt, Result.ite_errSet_eq_ok] at h
  obtain ⟨hrange, h⟩ := h
  cases h
  refine Or.inr ⟨rfl, hsrc, ?_, ?_⟩
  · intro _ hbounded
    obtain ⟨hlow, hhigh⟩ := not_or.mp fun hout => hrange ⟨hbounded, hout⟩
    exact ⟨v, rfl, not_lt.mp hlow, not_lt.mp hhigh⟩
  · intro huint
    cases htype.symm.trans huint

theorem setUint_step {v : Nat} (htype : e.desc.type = .uint)
    (h : setUint e v src = .ok e') : e.Step e' := by
  rw [setUint, Result.ite_errSet_eq_ok] at h
  obtain ⟨hrange, h⟩ := h
  cases h
  refine Or.inr ⟨rfl, hsrc, ?_, ?_⟩
  · intro hint
    cases htype.symm.trans hint
  · intro _ hbounded
    obtain ⟨hlow, hhigh⟩ := not_or.mp fun hout => hrange ⟨hbounded, hout⟩
    exact ⟨v, rfl, not_lt.mp hlow, not_lt.mp hhigh⟩

theorem setString_step {v : List Char} {allocated : Bool} (htype : e.desc.type = .string)
    (h : setString e v src allocated = .ok e') : e.Step e' := by
  rw [setString, Result.ite_errSet_eq_ok] at h
  obtain ⟨-, h⟩ := h
  cases h
  refine Or.inr ⟨rfl, hsrc, ?_, ?_⟩
  · intro hint
    cases htype.symm.trans hint
  · intro huint
    cases htype.symm.trans huint

theorem assignFromText_step {text : List Char} {allocated : Bool}
    (h : assignFromText e text src allocated = .ok e') : e.Step e' := by
  unfold assignFromText at h
  cases htype : e.desc.type with
  | bool =>
      simp only [htype] at h
      cases hparse : parseBool text with
      | none =>
          rw [hparse] at h
          cases h
      | some v =>
          rw [hparse] at h
          exact setBool_step hsrc htype h
  | int =>
      simp only [htype, Result.ite_errSet_eq_ok] at h
      exact setInt_step hsrc htype h.2
  | uint =>
      simp only [htype, Result.ite_errSet_eq_ok] at h
      exact setUint_step hsrc htype h.2.2
  | string =>
      simp only [htype] at h
      exact setString_step hsrc htype h

end Setters

section Calls

variable {cfg : ConfigStore}

theorem forall₂_step_refl (entries : List ConfigEntry) :
    List.Forall₂ ConfigEntry.Step entries entries :=
  List.forall₂_same.mpr fun e _ => .refl e

theorem forall₂_step_trans {es es' es'' : List ConfigEntry}
    (h : List.Forall₂ ConfigEntry.Step es es') (h' : List.Forall₂ ConfigEntry.Step es' es'') :
    List.Forall₂ ConfigEntry.Step es es'' := by
  induction h generalizing es'' with
  | nil =>
      cases h'
      exact .nil
  | cons hhead _ ih =>
      cases h' with
      | cons hhead' htail' => exact .cons (hhead.trans hhead') (ih htail')

theorem forall₂_step_set {es : List ConfigEntry} {i : Nat} {e e' : ConfigEntry}
    (hget : es[i]? = some e) (hstep : e.Step e') :
    List.Forall₂ ConfigEntry.Step es (es.set i e') := by
  induction es generalizing i with
  | nil => cases hget
  | cons x es ih =>
      cases i with
      | zero =>
          cases hget
          exact .cons hstep (forall₂_step_refl es)
      | succ i => exact .cons (.refl x) (ih hget)

theorem assignAt_step {i : Nat} {assign : ConfigEntry → Result ConfigEntry}
    (hassign : ∀ e e', assign e = .ok e' → e.Step e') :
    List.Forall₂ ConfigEntry.Step cfg.entries (cfg.assignAt i assign).1.entries := by
  unfold ConfigStore.assignAt
  cases hget : cfg.entries[i]? with
  | none => exact forall₂_step_refl _
  | some e =>
      dsimp only
      cases hres : assign e with
      | error f => exact forall₂_step_refl _
      | ok e' => exact forall₂_step_set hget (hassign e e' hres)

/-- A failing assignment changes nothing. -/
theorem assignAt_error {i : Nat} {assign : ConfigEntry → Result ConfigEntry} {f : Failure}
    (h : (cfg.assignAt i assign).2 = .error f) : (cfg.assignAt i assign).1 = cfg := by
  unfold ConfigStore.assignAt at h ⊢
  cases hget : cfg.entries[i]? with
  | none => rfl
  | some e =>
      rw [hget] at h
      dsimp only at h ⊢
      cases hres : assign e with
      | error f => rfl
      | ok e' =>
          rw [hres] at h
          cases h

theorem applyText_step (cfg : ConfigStore) (key text : List Char) {src : ConfigSource}
    (hsrc : src ≠ .default) (allocated : Bool) :
    List.Forall₂ ConfigEntry.Step cfg.entries (applyText cfg key text src allocated).1.entries := by
  unfold applyText
  cases findEntry cfg key with
  | none => exact forall₂_step_refl _
  | some i =>
      refine assignAt_step fun e e' h => ?_
      split at h
      · cases h
        exact .refl e
      · exact assignFromText_step hsrc h

theorem applyText_error {key text : List Char} {src : ConfigSource} {allocated : Bool}
    {f : Failure} (h : (applyText cfg key text src allocated).2 = .error f) :
    (applyText cfg key text src allocated).1 = cfg := by
  unfold applyText at h ⊢
  cases hfind : findEntry cfg key with
  | none => rfl
  | some i =>
      rw [hfind] at h
      exact assignAt_error h

theorem setTyped_step (cfg : ConfigStore) (key : List Char) {type : ConfigType}
    {setter : ConfigEntry → Result ConfigEntry}
    (hsetter : ∀ e e', e.desc.type = type → setter e = .ok e' → e.Step e') :
    List.Forall₂ ConfigEntry.Step cfg.entries (setTyped cfg key type setter).1.entries := by
  unfold setTyped
  cases findEntry cfg key with
  | none => exact forall₂_step_refl _
  | some i =>
      refine assignAt_step fun e e' h => ?_
      rw [Result.ite_errSet_eq_ok] at h
      exact hsetter e e' (not_not.mp h.1) h.2

theorem setTyped_error {key : List Char} {type : ConfigType}
    {setter : ConfigEntry → Result ConfigEntry} {f : Failure}
    (h : (setTyped cfg key type setter).2 = .error f) :
    (setTyped cfg key type setter).1 = cfg := by
  unfold setTyped at h ⊢
  cases hfind : findEntry cfg key with
  | none => rfl
  | some i =>
      rw [hfind] at h
      exact assignAt_error h

theorem loadLines_step (path : List Char) (allocated : Nat → Bool) (lineno : Nat)
    (cfg : ConfigStore) (lines : List ConfigLine) :
    List.Forall₂ ConfigEntry.Step cfg.entries
      (loadLines path allocated lineno cfg lines).1.entries := by
  induction lines generalizing cfg lineno with
  | nil => exact forall₂_step_refl _
  | cons line lines ih =>
      cases line with
      | blank => exact ih (lineno + 1) cfg
      | malformed => exact forall₂_step_refl _
      | assign key value =>
          have hline := applyText_step cfg key value (show ConfigSource.file ≠ .default by decide)
            (allocated lineno)
          rw [loadLines]
          split
          · rename_i cfg' f heq
            rw [heq] at hline
            exact hline
          · rename_i cfg' heq
            rw [heq] at hline
            exact forall₂_step_trans hline (ih (lineno + 1) cfg')

/-- Reading a file fails before its first line, or works on the lines of its content. -/
theorem hbiConfigLoadFile_cases (cfg : ConfigStore) (path : List Char) (file : ConfigFile)
    (allocated : Nat → Bool) :
    (file.Unread ∧ ∃ f, hbiConfigLoadFile cfg path file allocated = (cfg, .error f)) ∨
    ¬ file.Unread ∧ ∃ content, file.content = .ok content ∧
      hbiConfigLoadFile cfg path file allocated =
        loadLines path allocated 1 cfg (fileLines content) := by
  unfold hbiConfigLoadFile ConfigFile.Unread
  cases file.opened with
  | error f => exact Or.inl ⟨Or.inl ⟨f, rfl⟩, f, rfl⟩
  | ok u =>
      cases file.size with
      | error f => exact Or.inl ⟨Or.inr (Or.inl ⟨f, rfl⟩), f, rfl⟩
      | ok size =>
          dsimp only
          by_cases hlarge : size > 16 * 1024 * 1024
          · rw [if_pos hlarge]
            exact Or.inl ⟨Or.inr (Or.inr (Or.inl ⟨size, rfl, hlarge⟩)), _, rfl⟩
          rw [if_neg hlarge]
          by_cases hbuffer : file.buffer = false
          · rw [if_pos hbuffer]
            exact Or.inl ⟨Or.inr (Or.inr (Or.inr (Or.inl hbuffer))), _, rfl⟩
          rw [if_neg hbuffer]
          cases hcontent : file.content with
          | error f => exact Or.inl ⟨Or.inr (Or.inr (Or.inr (Or.inr ⟨f, rfl⟩))), f, rfl⟩
          | ok content =>
              refine Or.inr ⟨?_, content, rfl, rfl⟩
              rintro (⟨f, hf⟩ | ⟨f, hf⟩ | ⟨size', hsize, hover⟩ | hno | ⟨f, hf⟩)
              · cases hf
              · cases hf
              · cases hsize
                exact hlarge hover
              · exact hbuffer hno
              · cases hf

theorem loadEnvEntry_step {env : List Char → Option (List Char)} {allocated : Bool}
    {e e' : ConfigEntry} (h : loadEnvEntry env allocated e = .ok e') : e.Step e' := by
  unfold loadEnvEntry at h
  cases htext : e.desc.envText env with
  | none =>
      rw [htext] at h
      cases h
      exact .refl e
  | some raw =>
      rw [htext] at h
      dsimp only at h
      split at h
      · cases h
        exact .refl e
      · exact assignFromText_step (by decide) h

theorem loadEnvLoop_step (env : List Char → Option (List Char)) (allocated : Nat → Bool)
    (i : Nat) (es : List ConfigEntry) :
    List.Forall₂ ConfigEntry.Step es (loadEnvLoop env allocated i es).1 := by
  induction es generalizing i with
  | nil => exact .nil
  | cons e es ih =>
      rw [loadEnvLoop]
      cases hres : loadEnvEntry env (allocated i) e with
      | error f => exact forall₂_step_refl _
      | ok e' => exact .cons (loadEnvEntry_step hres) (ih (i + 1))

theorem ConfigStore.step_forall₂ (cfg : ConfigStore) (c : ConfigCall × (Nat → Bool)) :
    List.Forall₂ ConfigEntry.Step cfg.entries (cfg.step c).entries := by
  have hset : ConfigSource.set ≠ .default := by decide
  obtain ⟨c, allocated⟩ := c
  cases c with
  | loadFile path file =>
      rw [ConfigStore.step, ConfigStore.call]
      obtain ⟨-, f, heq⟩ | ⟨-, content, -, heq⟩ := hbiConfigLoadFile_cases cfg path file allocated
      · rw [heq]
        exact forall₂_step_refl _
      · rw [heq]
        exact loadLines_step path allocated 1 cfg _
  | loadEnv env => exact loadEnvLoop_step env allocated 0 cfg.entries
  | assign a =>
      cases a with
      | kv key value => exact applyText_step cfg key value hset (allocated 0)
      | bool key value => exact setTyped_step cfg key fun _ _ => setBool_step hset
      | int key value => exact setTyped_step cfg key fun _ _ => setInt_step hset
      | uint key value => exact setTyped_step cfg key fun _ _ => setUint_step hset
      | string key value => exact setTyped_step cfg key fun _ _ => setString_step hset

/-- The lines in front of the one that fails have taken effect, and no others. -/
theorem loadLines_error {path : List Char} {allocated : Nat → Bool} {lineno : Nat}
    {cfg cfg' : ConfigStore} {lines : List ConfigLine} {f : Failure}
    (h : loadLines path allocated lineno cfg lines = (cfg', .error f)) :
    ∃ before line behind, lines = before ++ line :: behind ∧
      loadLines path allocated lineno cfg before = (cfg', .ok ()) ∧
      loadLines path allocated (lineno + before.length) cfg' [line] = (cfg', .error f) := by
  induction lines generalizing cfg lineno with
  | nil => cases h
  | cons line lines ih =>
      cases line with
      | blank =>
          obtain ⟨before, line, behind, hlines, hbefore, hline⟩ := ih h
          refine ⟨.blank :: before, line, behind, by rw [hlines]; rfl, hbefore, ?_⟩
          rw [List.length_cons, Nat.add_comm before.length 1, ← Nat.add_assoc]
          exact hline
      | malformed =>
          cases h
          exact ⟨[], .malformed, lines, rfl, rfl, rfl⟩
      | assign key value =>
          rw [loadLines] at h
          cases happly : applyText cfg key value .file (allocated lineno) with
          | mk cfg₁ result =>
              rw [happly] at h
              cases result with
              | error g =>
                  cases h
                  have hsame : cfg' = cfg := by
                    have hkept := @applyText_error cfg key value .file (allocated lineno) f
                    rw [happly] at hkept
                    exact hkept rfl
                  subst hsame
                  refine ⟨[], .assign key value, lines, rfl, rfl, ?_⟩
                  rw [List.length_nil, Nat.add_zero, loadLines, happly]
              | ok u =>
                  obtain ⟨before, line, behind, hlines, hbefore, hline⟩ := ih h
                  refine ⟨.assign key value :: before, line, behind, by rw [hlines]; rfl, ?_, ?_⟩
                  · rw [loadLines, happly]
                    exact hbefore
                  · rw [List.length_cons, Nat.add_comm before.length 1, ← Nat.add_assoc]
                    exact hline

theorem loadEnvLoop_error {env : List Char → Option (List Char)} {allocated : Nat → Bool}
    {start : Nat} {es : List ConfigEntry} {f : Failure}
    (h : (loadEnvLoop env allocated start es).2 = .error f) :
    ∃ i e raw, es[i]? = some e ∧ e.desc.envText env = some raw ∧
      assignFromText e raw .env (allocated (start + i)) = .error f ∧
      (loadEnvLoop env allocated start es).1.drop i = es.drop i := by
  induction es generalizing start with
  | nil => cases h
  | cons e es ih =>
      rw [loadEnvLoop] at h ⊢
      cases hres : loadEnvEntry env (allocated start) e with
      | error g =>
          rw [hres] at h
          cases h
          unfold loadEnvEntry at hres
          cases htext : e.desc.envText env with
          | none =>
              rw [htext] at hres
              cases hres
          | some raw =>
              rw [htext] at hres
              dsimp only at hres
              split at hres
              · cases hres
              · exact ⟨0, e, raw, rfl, htext, hres, rfl⟩
      | ok e' =>
          rw [hres] at h
          obtain ⟨i, e₁, raw, hget, htext, herror, hdrop⟩ := ih h
          refine ⟨i + 1, e₁, raw, hget, htext, ?_, hdrop⟩
          rw [Nat.add_comm i 1, ← Nat.add_assoc]
          exact herror

theorem ConfigStore.failureContract (cfg : ConfigStore) (c : ConfigCall × (Nat → Bool)) :
    cfg.FailureContract c := by
  obtain ⟨c, allocated⟩ := c
  cases c with
  | loadFile path file =>
      intro f hf
      rw [ConfigStore.call] at hf
      rw [ConfigStore.step, ConfigStore.call]
      obtain ⟨hunread, g, heq⟩ | ⟨hread, content, hcontent, heq⟩ :=
        hbiConfigLoadFile_cases cfg path file allocated
      · rw [heq]
        exact Or.inl ⟨hunread, rfl⟩
      · rw [heq] at hf ⊢
        obtain ⟨before, line, behind, hlines, hbefore, hline⟩ := loadLines_error (Prod.ext rfl hf)
        exact Or.inr ⟨hread, content, before, line, behind, hcontent, hlines, hbefore, hline⟩
  | loadEnv env =>
      intro f hf
      obtain ⟨i, e, raw, hget, htext, herror, hdrop⟩ := loadEnvLoop_error hf
      rw [Nat.zero_add] at herror
      exact ⟨i, e, raw, hget, htext, herror, hdrop⟩
  | assign a =>
      intro f hf
      cases a with
      | kv key value => exact applyText_error hf
      | bool key value => exact setTyped_error hf
      | int key value => exact setTyped_error hf
      | uint key value => exact setTyped_error hf
      | string key value => exact setTyped_error hf

end Calls

theorem startEntries_eq {blocks : ConfigBlocks} {i : Nat} {schema : List ConfigDesc}
    {entries : List ConfigEntry} (h : startEntries blocks i schema = .ok entries) :
    entries = schema.map fun d => ⟨d, .default, d.initial⟩ := by
  induction schema generalizing i entries with
  | nil =>
      cases h
      rfl
  | cons d ds ih =>
      rw [startEntries, Result.ite_errSet_eq_ok, Result.bind_eq_ok] at h
      obtain ⟨-, rest, hrest, h⟩ := h
      cases h
      rw [ih hrest]
      rfl

/-- A new store holds the defaults. -/
theorem hbiConfigCreate_eq {schema : List ConfigDesc} {blocks : ConfigBlocks}
    {cfg : ConfigStore} (h : hbiConfigCreate schema blocks = .ok cfg) :
    validateSchema [] schema = .ok () ∧
      cfg = ⟨schema.map fun d => ⟨d, .default, d.initial⟩⟩ := by
  unfold hbiConfigCreate at h
  rw [Result.bind_eq_ok] at h
  obtain ⟨⟨⟩, hvalid, h⟩ := h
  rw [Result.ite_errSet_eq_ok, Result.ite_errSet_eq_ok, Result.ite_errSet_eq_ok,
    Result.bind_eq_ok] at h
  obtain ⟨-, -, -, entries, hentries, h⟩ := h
  cases h
  exact ⟨hvalid, congrArg ConfigStore.mk (startEntries_eq hentries)⟩

/-- The descriptors stay those of the schema, and every entry is kept. -/
def ConfigStore.Sound (schema : List ConfigDesc) (cfg : ConfigStore) : Prop :=
  cfg.entries.map (·.desc) = schema ∧ ∀ e ∈ cfg.entries, e.Kept

theorem ConfigStore.Sound.of_forall₂ {schema : List ConfigDesc} {cfg cfg' : ConfigStore}
    (h : cfg.Sound schema)
    (hstep : List.Forall₂ ConfigEntry.Step cfg.entries cfg'.entries) : cfg'.Sound schema := by
  obtain ⟨hdescs, hkept⟩ := h
  have hboth : ∀ {es es' : List ConfigEntry}, List.Forall₂ ConfigEntry.Step es es' →
      (∀ e ∈ es, e.Kept) →
        es'.map (·.desc) = es.map (·.desc) ∧ ∀ e ∈ es', e.Kept := by
    intro es es' hsteps
    induction hsteps with
    | nil => exact fun _ => ⟨rfl, fun e he => absurd he List.not_mem_nil⟩
    | @cons e e' es es' hhead _ ih =>
        intro hall
        obtain ⟨htail, hrest⟩ := ih fun x hx => hall x (List.mem_cons_of_mem e hx)
        have hdesc : e'.desc = e.desc := by
          rcases hhead with rfl | ⟨hsame, -⟩
          · rfl
          · exact hsame
        refine ⟨?_, ?_⟩
        · rw [List.map_cons, List.map_cons, htail, hdesc]
        · intro x hx
          rcases List.mem_cons.mp hx with rfl | hx
          · exact hhead.kept (hall e List.mem_cons_self)
          · exact hrest x hx
  obtain ⟨hsame, hkept'⟩ := hboth hstep hkept
  exact ⟨hsame.trans hdescs, hkept'⟩

/-- In every state that calls can lead to from a new store, an entry that was assigned is in
bounds and one that was not has its default, and a call that fails leaves what it failed on. -/
theorem config_bounds {schema : List ConfigDesc} {blocks : ConfigBlocks} {cfg : ConfigStore}
    (hcreate : hbiConfigCreate schema blocks = .ok cfg)
    (calls : List (ConfigCall × (Nat → Bool))) :
    (Runs.final ConfigStore.step cfg calls).Sound schema ∧
      ∀ c, (Runs.final ConfigStore.step cfg calls).FailureContract c := by
  obtain ⟨-, rfl⟩ := hbiConfigCreate_eq hcreate
  refine ⟨?_, ConfigStore.failureContract _⟩
  apply Runs.final_of_step
  · exact fun cfg c h => h.of_forall₂ (cfg.step_forall₂ c)
  · refine ⟨?_, ?_⟩
    · rw [List.map_map]
      exact List.map_id schema
    · intro e he
      obtain ⟨d, -, rfl⟩ := List.mem_map.mp he
      exact ⟨fun _ => rfl, fun hassigned => absurd rfl hassigned⟩

/-- The number of threads: bounded from below by one, and zero unless it is given. -/
def threadsDesc : ConfigDesc :=
  ⟨['t'], .int, none, false, 0, 0, none, 1, 8, 0, 0⟩

def grantedBlocks : ConfigBlocks := ⟨true, true, fun _ => true⟩

theorem config_bounds_threads :
    let cfg : ConfigStore := ⟨[⟨threadsDesc, .default, .int 0⟩]⟩
    let calls : List (ConfigCall × (Nat → Bool)) := [(.assign (.int ['t'] 4), fun _ => true)]
    (Runs.final ConfigStore.step cfg calls).Sound [threadsDesc] ∧
      ∀ c, (Runs.final ConfigStore.step cfg calls).FailureContract c :=
  config_bounds (show hbiConfigCreate [threadsDesc] grantedBlocks =
    .ok ⟨[⟨threadsDesc, .default, .int 0⟩]⟩ by decide) _

/-- The default is accepted out of bounds, and a file whose second line for a key is refused
has taken the first one. -/
theorem config_bounds_defaults_and_lines :
    let cfg : ConfigStore := ⟨[⟨threadsDesc, .default, .int 0⟩]⟩
    let file : ConfigFile := ⟨.ok (), .ok 8, true, .ok "t=2\nt=9\n".toList⟩
    let after := cfg.call (.loadFile ['f'] file, fun _ => true)
    hbiConfigCreate [threadsDesc] grantedBlocks = .ok cfg ∧
      (∃ e ∈ cfg.entries, ¬ e.InBounds) ∧
      after.2 = errSet .corrupt "config 't': 9 out of range [1,8]" ∧
      after.1.entries.map (·.value) = [.int 2] := by
  refine ⟨by decide, ⟨_, List.mem_cons_self, ?_⟩, by decide, by decide⟩
  intro h
  obtain ⟨v, hv, hle, -⟩ := h.int rfl (by decide)
  cases hv
  exact absurd hle (by decide)

end Hummingbird
