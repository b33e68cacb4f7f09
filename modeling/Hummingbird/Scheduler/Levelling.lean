import Hummingbird.Scheduler.Kahn

/-!
The plan is an exact levelling. At the start of every stage the sorted tasks carry
the length of the longest dependency path that ends in them, and the queued tasks
are exactly those whose longest path has the length of the stage about to begin.
-/

namespace Hummingbird

/-- The invariant at the start of a stage. -/
structure KahnState.Levelled (g : Graph) (s : KahnState) : Prop where
  inv : s.Inv g []
  depth_eq : s.maxDepth = s.stages.length
  stages_flat : s.stages.flatMap ExecutionStage.tasks = s.sortedOrder
  stage_at : ∀ (k : Nat) (stage : ExecutionStage), s.stages[k]? = some stage →
    stage.stageId = k ∧ stage.tasks ≠ [] ∧
      ∀ v, v ∈ stage.tasks ↔ v ∈ s.sortedOrder ∧ s.executionStage.getD v 0 = k
  sorted_path : ∀ v ∈ s.sortedOrder, s.executionStage.getD v 0 < s.stages.length ∧
    IsGreatest {l | Levels.PathTo g.Feeds l v} (s.executionStage.getD v 0)
  queued_path : ∀ v ∈ s.queue.contents,
    IsGreatest {l | Levels.PathTo g.Feeds l v} s.stages.length

/-- A task was queued exactly when all of its dependencies are sorted. -/
theorem KahnState.Inv.ready_iff_deps {g : Graph} {s : KahnState} (h : s.Inv g []) {v : Nat}
    (hv : v < hbiGraphNumNodes g) :
    v ∈ s.sortedOrder ++ s.queue.contents ↔ ∀ u, g.Feeds u v → u ∈ s.sortedOrder := by
  rw [h.ready_iff, h.degree v hv, List.count_nil, Nat.add_zero, List.countP_eq_zero]
  simp [hv, Graph.Feeds]

theorem kahnInit_levelled {g : Graph} (hg : g.Sized) (hne : 0 < hbiGraphNumNodes g) :
    (kahnInit g).Levelled g := by
  obtain ⟨hinv, hsorted, hstages, hdepth⟩ := kahnInit_inv hg hne
  refine ⟨hinv, by rw [hdepth, hstages]; rfl, by rw [hstages, hsorted]; rfl, ?_, ?_, ?_⟩
  · intro k stage hstage
    simp [hstages] at hstage
  · intro v hv
    simp [hsorted] at hv
  · intro v hv
    have hmem : v ∈ (kahnInit g).sortedOrder ++ (kahnInit g).queue.contents := by simp [hv]
    have hvlt := ((hinv.ready_iff v).mp hmem).1
    rw [hstages]
    apply Levels.isGreatest_zero
    intro u hfeeds
    have := (hinv.ready_iff_deps hvlt).mp hmem u hfeeds
    simp [hsorted] at this

/-- What the inner loop makes of a levelled state: the queued tasks are sorted and carry
the number of the stage. -/
structure KahnState.LevelRun (g : Graph) (s t : KahnState) : Prop where
  inv : t.Inv g []
  sorted_eq : t.sortedOrder = s.sortedOrder ++ s.queue.contents
  stages_eq : t.stages = s.stages
  depth_eq : t.maxDepth = s.maxDepth
  keep : ∀ v ∈ s.sortedOrder, t.executionStage.getD v 0 = s.executionStage.getD v 0
  now : ∀ v ∈ s.queue.contents, t.executionStage.getD v 0 = s.stages.length

theorem KahnState.Levelled.run {g : Graph} {s : KahnState} (h : s.Levelled g) :
    ∃ t, levelLoop (edgeLists g).outEdges s.stages.length s.queue.count s =
      (s.queue.contents, t) ∧ s.LevelRun g t := by
  have hq : s.queue.contents = s.queue.contents ++ [] := by simp
  obtain ⟨t, hloop, hinv, hsorted, -, hstages, hdepth, hstage⟩ :=
    @levelLoop_inv g s s.stages.length s.queue.contents [] h.inv hq
  rw [TaskQueue.length_contents] at hloop
  refine ⟨t, hloop, hinv, hsorted, hstages, hdepth, ?_, ?_⟩
  · intro v hv
    have hold : v ∉ s.queue.contents := fun hmem =>
      (List.nodup_append.mp h.inv.nodup).2.2 v hv v hmem rfl
    rw [hstage, if_neg hold]
  · intro v hv
    rw [hstage, if_pos hv]

/-- The sorted tasks carry their longest paths, the new ones included. -/
theorem KahnState.LevelRun.sorted_path {g : Graph} {s t : KahnState} (hrun : s.LevelRun g t)
    (h : s.Levelled g) {v : Nat} (hv : v ∈ t.sortedOrder) :
    t.executionStage.getD v 0 < s.stages.length + 1 ∧
      IsGreatest {l | Levels.PathTo g.Feeds l v} (t.executionStage.getD v 0) := by
  rw [hrun.sorted_eq, List.mem_append] at hv
  rcases hv with hv | hv
  · rw [hrun.keep v hv]
    exact ⟨(h.sorted_path v hv).1.trans (Nat.lt_succ_self _), (h.sorted_path v hv).2⟩
  · rw [hrun.now v hv]
    exact ⟨Nat.lt_succ_self _, h.queued_path v hv⟩

/-- An old stage still holds exactly the tasks with its number. -/
theorem KahnState.LevelRun.mem_old_stage {g : Graph} {s t : KahnState} (hrun : s.LevelRun g t)
    {k v : Nat} (hk : k < s.stages.length) :
    v ∈ s.sortedOrder ∧ s.executionStage.getD v 0 = k ↔
      v ∈ t.sortedOrder ∧ t.executionStage.getD v 0 = k := by
  rw [hrun.sorted_eq, List.mem_append]
  constructor
  · rintro ⟨hv, hvk⟩
    exact ⟨Or.inl hv, (hrun.keep v hv).trans hvk⟩
  · rintro ⟨hv | hv, hvk⟩
    · exact ⟨hv, (hrun.keep v hv).symm.trans hvk⟩
    · rw [hrun.now v hv] at hvk
      omega

/-- The new stage holds exactly the tasks with its number. -/
theorem KahnState.LevelRun.mem_new_stage {g : Graph} {s t : KahnState} (hrun : s.LevelRun g t)
    (h : s.Levelled g) {v : Nat} :
    v ∈ s.queue.contents ↔ v ∈ t.sortedOrder ∧ t.executionStage.getD v 0 = s.stages.length := by
  rw [hrun.sorted_eq, List.mem_append]
  constructor
  · intro hv
    exact ⟨Or.inr hv, hrun.now v hv⟩
  · rintro ⟨hv | hv, hvk⟩
    · rw [hrun.keep v hv] at hvk
      have := (h.sorted_path v hv).1
      omega
    · exact hv

/-- What got queued meanwhile depends on at least one task of the stage, so its longest
path has the length of the next one. -/
theorem KahnState.LevelRun.queued_path {g : Graph} {s t : KahnState} (hrun : s.LevelRun g t)
    (h : s.Levelled g) {v : Nat} (hv : v ∈ t.queue.contents) :
    IsGreatest {l | Levels.PathTo g.Feeds l v} (s.stages.length + 1) := by
  have hmem : v ∈ t.sortedOrder ++ t.queue.contents := List.mem_append_right _ hv
  have hvlt := ((hrun.inv.ready_iff v).mp hmem).1
  have hdeps := (hrun.inv.ready_iff_deps hvlt).mp hmem
  have hlate : ∃ u, g.Feeds u v ∧ u ∉ s.sortedOrder := by
    by_contra hnone
    push Not at hnone
    have hearly := (h.inv.ready_iff_deps hvlt).mpr hnone
    rw [← hrun.sorted_eq] at hearly
    exact (List.nodup_append.mp hrun.inv.nodup).2.2 v hearly v hv rfl
  obtain ⟨u, hfeeds, hnot⟩ := hlate
  have hu : u ∈ s.queue.contents := by
    have := hdeps u hfeeds
    rw [hrun.sorted_eq, List.mem_append] at this
    exact this.resolve_left hnot
  apply @Levels.isGreatest_succ _ _ _ _ fun w => t.executionStage.getD w 0
  · intro w hw
    exact (hrun.sorted_path h (hdeps w hw)).2
  · intro w hw
    exact Nat.lt_succ_iff.mp (hrun.sorted_path h (hdeps w hw)).1
  · exact ⟨u, hfeeds, hrun.now u hu⟩

/-- One stage keeps the state levelled and sorts the queued tasks. -/
theorem kahnLevel_levelled {g : Graph} {s : KahnState} (h : s.Levelled g)
    (hcount : 0 < s.queue.count) :
    (kahnLevel (edgeLists g).outEdges s).Levelled g ∧
      (kahnLevel (edgeLists g).outEdges s).sortedOrder =
        s.sortedOrder ++ s.queue.contents := by
  obtain ⟨t, hloop, hrun⟩ := h.run
  have hinv := hrun.inv
  have hlevel : kahnLevel (edgeLists g).outEdges s = { t with
      stages := s.stages ++ [⟨s.stages.length, s.queue.contents, s.stages.length⟩]
      maxDepth := t.maxDepth + 1 } := by
    simp only [kahnLevel, hloop, hrun.stages_eq]
  rw [hlevel]
  refine ⟨⟨⟨hinv.queue, hinv.degree_len, hinv.stage_len, hinv.nodup, hinv.degree,
    hinv.degree_le, hinv.ready_iff, hinv.dropped⟩, ?_, ?_, ?_, ?_, ?_⟩, hrun.sorted_eq⟩
  · simp [hrun.depth_eq, h.depth_eq]
  · simp [h.stages_flat, hrun.sorted_eq]
  · intro k stage hk
    rcases getElem?_append_cases hk with hk | ⟨j, rfl, hnew⟩
    · obtain ⟨hid, hnonempty, hmem⟩ := h.stage_at k stage hk
      have hklt : k < s.stages.length := (List.getElem?_eq_some_iff.mp hk).1
      exact ⟨hid, hnonempty, fun v => (hmem v).trans (hrun.mem_old_stage hklt)⟩
    · cases j with
      | succ j => simp at hnew
      | zero =>
          obtain rfl := Option.some.inj hnew
          refine ⟨rfl, ?_, fun v => hrun.mem_new_stage h⟩
          intro hnil
          have hlen : s.queue.contents.length = 0 := congrArg List.length hnil
          rw [TaskQueue.length_contents] at hlen
          omega
  · intro v hv
    simpa using hrun.sorted_path h hv
  · intro v hv
    simpa using hrun.queued_path h hv

/-- The traversal ends, with fuel beyond the number of tasks left, in a levelled
state with an empty queue. -/
theorem kahnLoop_levelled {g : Graph} {s : KahnState} {fuel : Nat} (h : s.Levelled g)
    (hfuel : hbiGraphNumNodes g < s.sortedOrder.length + fuel) :
    ∃ s', s'.Levelled g ∧ s'.queue.contents = [] ∧
      ∀ more, kahnLoop (edgeLists g).outEdges (fuel + more) s = some s' := by
  induction fuel generalizing s with
  | zero =>
      have := h.inv.sorted_length_le
      omega
  | succ fuel ih =>
      by_cases hcount : 0 < s.queue.count
      · obtain ⟨hnext, hsorted⟩ := kahnLevel_levelled h hcount
        have hlen := TaskQueue.length_contents s.queue
        obtain ⟨s', hs', hempty, hrun⟩ := ih hnext (by
          rw [hsorted, List.length_append, hlen]
          omega)
        refine ⟨s', hs', hempty, ?_⟩
        intro more
        rw [Nat.add_right_comm, kahnLoop, if_pos hcount]
        exact hrun more
      · refine ⟨s, h, ?_, ?_⟩
        · apply List.length_eq_zero_iff.mp
          rw [TaskQueue.length_contents]
          omega
        · intro more
          rw [Nat.add_right_comm, kahnLoop, if_neg hcount]

/-- The exact levelling of a graph: every node in one stage once, numbered by the
longest dependency path that ends in it, with its dependencies listed with their
multiplicity and placed earlier, and as many stages as the longest path has nodes. -/
structure ExecutionPlan.Levelling (g : Graph) (plan : ExecutionPlan) : Prop where
  each_once : (plan.stages.flatMap ExecutionStage.tasks).Perm
    (List.range (hbiGraphNumNodes g))
  tasks_length : plan.tasks.length = hbiGraphNumNodes g
  task_at : ∀ (i : Nat) (task : Task), plan.tasks[i]? = some task →
    task.taskId = i ∧ task.node = hbiGraphNodeAt g i ∧ task.dependencies = g.deps i ∧
      IsGreatest {l | Levels.PathTo g.Feeds l i} task.executionStage ∧
      ∃ stage, plan.stages[task.executionStage]? = some stage ∧ i ∈ stage.tasks
  deps_earlier : ∀ (i : Nat) (task : Task), plan.tasks[i]? = some task →
    ∀ d ∈ task.dependencies, ∃ dep : Task, plan.tasks[d]? = some dep ∧
      dep.executionStage < task.executionStage
  num_stages : plan.stats.numStages = plan.stages.length
  critical_path : plan.stats.criticalPathLength = plan.stages.length
  longest_path : ∃ l, IsGreatest {l | ∃ i < hbiGraphNumNodes g, Levels.PathTo g.Feeds l i} l ∧
    plan.stages.length = l + 1

/-- A finished traversal has sorted every task exactly when there is no cycle. -/
theorem KahnState.Levelled.complete_iff {g : Graph} (hg : g.Sized) {s : KahnState}
    (h : s.Levelled g) (hempty : s.queue.contents = []) :
    s.sortedOrder.length = hbiGraphNumNodes g ↔ ¬ ∃ v, Relation.TransGen g.Feeds v v := by
  have hready : ∀ v < hbiGraphNumNodes g,
      v ∈ s.sortedOrder ↔ ∀ u, g.Feeds u v → u ∈ s.sortedOrder := by
    intro v hv
    have := h.inv.ready_iff_deps hv
    rwa [hempty, List.append_nil] at this
  have hnodup : s.sortedOrder.Nodup := (List.nodup_append.mp h.inv.nodup).1
  have hsub : s.sortedOrder ⊆ List.range (hbiGraphNumNodes g) := by
    intro v hv
    exact List.mem_range.mpr ((h.inv.ready_iff v).mp (List.mem_append_left _ hv)).1
  constructor
  · intro hlen
    have hperm := (hnodup.subperm hsub).perm_of_length_le (by simp [hlen])
    apply @Levels.acyclic_of_lt _ _ fun v => s.executionStage.getD v 0
    intro u v hfeeds
    have hv : v ∈ s.sortedOrder := hperm.mem_iff.mpr (List.mem_range.mpr hfeeds.lt)
    have hu := (hready v hfeeds.lt).mp hv u hfeeds
    have hpath := Levels.PathTo.step (h.sorted_path u hu).2.1 hfeeds
    exact Nat.lt_of_succ_le ((h.sorted_path v hv).2.2 hpath)
  · intro hacyclic
    have hall := @Levels.mem_of_acyclic _ g.Feeds (Finset.range (hbiGraphNumNodes g))
      {v | v ∈ s.sortedOrder} hacyclic
      (fun u v _ hfeeds => Finset.mem_range.mpr (hg.feeds_lt hfeeds))
      (fun v hv hdeps => (hready v (Finset.mem_range.mp hv)).mpr hdeps)
    have hsup : List.range (hbiGraphNumNodes g) ⊆ s.sortedOrder := fun v hv =>
      hall v (Finset.mem_range.mpr (List.mem_range.mp hv))
    have hle := (hnodup.subperm hsub).length_le
    have hge := (List.nodup_range.subperm hsup).length_le
    rw [List.length_range] at hle hge
    exact le_antisymm hle hge

/-- A complete traversal is read off as an exact levelling. -/
theorem KahnState.Levelled.levelling {g : Graph} (hg : g.Sized)
    (hne : 0 < hbiGraphNumNodes g) {s : KahnState} (h : s.Levelled g)
    (hlen : s.sortedOrder.length = hbiGraphNumNodes g) : (finishPlan g s).Levelling g := by
  have hnodup : s.sortedOrder.Nodup := (List.nodup_append.mp h.inv.nodup).1
  have hsub : s.sortedOrder ⊆ List.range (hbiGraphNumNodes g) := by
    intro v hv
    exact List.mem_range.mpr ((h.inv.ready_iff v).mp (List.mem_append_left _ hv)).1
  have hperm := (hnodup.subperm hsub).perm_of_length_le (by simp [hlen])
  have hmem : ∀ i < hbiGraphNumNodes g, i ∈ s.sortedOrder := fun i hi =>
    hperm.mem_iff.mpr (List.mem_range.mpr hi)
  have hget : ∀ i < hbiGraphNumNodes g, (finishPlan g s).tasks[i]? = some
      { taskId := i, node := hbiGraphNodeAt g i, dependencies := g.deps i,
        executionStage := s.executionStage.getD i 0 } := by
    intro i hi
    rw [finishPlan, List.getElem?_map, List.getElem?_range hi, Option.map_some,
      edgeLists_dependencies hi]
  have htask : ∀ (i : Nat) (task : Task), (finishPlan g s).tasks[i]? = some task →
      i < hbiGraphNumNodes g := by
    intro i task hi
    have := (List.getElem?_eq_some_iff.mp hi).1
    simpa [finishPlan] using this
  refine ⟨?_, by simp [finishPlan], ?_, ?_, rfl, h.depth_eq, ?_⟩
  · rw [show (finishPlan g s).stages = s.stages from rfl, h.stages_flat]
    exact hperm
  · intro i task hi
    have hlt := htask i task hi
    rw [hget i hlt] at hi
    cases hi
    obtain ⟨hstage, hpath⟩ := h.sorted_path i (hmem i hlt)
    refine ⟨rfl, rfl, rfl, hpath, s.stages[s.executionStage.getD i 0],
      List.getElem?_eq_getElem hstage, ?_⟩
    exact ((h.stage_at _ _ (List.getElem?_eq_getElem hstage)).2.2 i).mpr ⟨hmem i hlt, rfl⟩
  · intro i task hi d hd
    have hlt := htask i task hi
    rw [hget i hlt] at hi
    cases hi
    have hdlt := hg.feeds_lt hd
    refine ⟨_, hget d hdlt, ?_⟩
    have hstep := Levels.PathTo.step (h.sorted_path d (hmem d hdlt)).2.1 hd
    exact Nat.lt_of_succ_le ((h.sorted_path i (hmem i hlt)).2.2 hstep)
  · have hpos : 0 < s.stages.length := by
      have := (h.sorted_path 0 (hmem 0 hne)).1
      omega
    refine ⟨s.stages.length - 1, ⟨?_, ?_⟩, (Nat.sub_add_cancel hpos).symm⟩
    · have hlast := List.getElem?_eq_getElem (Nat.sub_lt hpos one_pos)
      obtain ⟨_, hnonempty, hiff⟩ := h.stage_at _ _ hlast
      obtain ⟨v, hv⟩ := List.exists_mem_of_ne_nil _ hnonempty
      obtain ⟨hsorted, hstage⟩ := (hiff v).mp hv
      have hpath := (h.sorted_path v hsorted).2.1
      rw [hstage] at hpath
      exact ⟨v, List.mem_range.mp (hsub hsorted), hpath⟩
    · rintro l ⟨i, hi, hpath⟩
      obtain ⟨hstage, hgreatest⟩ := h.sorted_path i (hmem i hi)
      have := hgreatest.2 hpath
      omega

/-- The traversal of a graph with at least one node ends in a levelled state. -/
theorem Graph.Sized.kahnRun_levelled {g : Graph} (hg : g.Sized)
    (hne : 0 < hbiGraphNumNodes g) :
    ∃ s : KahnState, s.Levelled g ∧ s.queue.contents = [] ∧
      ∀ fuel, hbiGraphNumNodes g < fuel → kahnRun fuel g = some s := by
  have hsorted := (kahnInit_inv hg hne).2.1
  obtain ⟨s, hs, hempty, hrun⟩ := @kahnLoop_levelled g (kahnInit g) (hbiGraphNumNodes g + 1)
    (kahnInit_levelled hg hne) (by rw [hsorted, List.length_nil]; omega)
  refine ⟨s, hs, hempty, ?_⟩
  intro fuel hfuel
  obtain ⟨more, rfl⟩ := Nat.exists_eq_add_of_lt hfuel
  rw [kahnRun, Nat.add_right_comm]
  exact hrun more

/-- The plan that a call with enough fuel returns is a levelling. -/
theorem Graph.Sized.levelling_of_plan {g : Graph} (hg : g.Sized) {fuel : Nat}
    (hfuel : hbiGraphNumNodes g < fuel) {plan : ExecutionPlan}
    (hplan : hbiSchedulerCreatePlan fuel g = some (.ok plan)) : plan.Levelling g := by
  unfold hbiSchedulerCreatePlan at hplan
  split at hplan
  · simp at hplan
  · rename_i hne
    obtain ⟨s, hs, -, hrun⟩ := hg.kahnRun_levelled (Nat.pos_of_ne_zero hne)
    rw [hrun fuel hfuel] at hplan
    by_cases hlen : s.sortedOrder.length = hbiGraphNumNodes g
    · simp only [hlen, ne_eq, not_true_eq_false, if_false, Option.some.injEq,
        Except.ok.injEq] at hplan
      exact hplan ▸ hs.levelling hg (Nat.pos_of_ne_zero hne) hlen
    · simp [hlen] at hplan

/-- Scheduling a graph with at least one node ends; no push is ever refused; it
succeeds exactly when the producer relation has no cycle, and then with an exact
levelling of the graph. -/
theorem scheduler_plan_exact_levelling {g : Graph} (hg : g.Sized)
    (hne : 0 < hbiGraphNumNodes g) :
    ∃ (s : KahnState) (r : Result ExecutionPlan),
      (∀ fuel, hbiGraphNumNodes g < fuel →
        kahnRun fuel g = some s ∧ hbiSchedulerCreatePlan fuel g = some r) ∧
      s.dropped = 0 ∧
      ((∃ plan, r = .ok plan) ↔ ¬ ∃ v, Relation.TransGen g.Feeds v v) ∧
      ∀ plan, r = .ok plan → plan.Levelling g := by
  obtain ⟨s, hs, hempty, hkahn⟩ := hg.kahnRun_levelled hne
  have hcomplete := hs.complete_iff hg hempty
  by_cases hlen : s.sortedOrder.length = hbiGraphNumNodes g
  · refine ⟨s, .ok (finishPlan g s), fun fuel hfuel => ⟨hkahn fuel hfuel, ?_⟩,
      hs.inv.dropped, ?_, ?_⟩
    · simp only [hbiSchedulerCreatePlan, hkahn fuel hfuel, hne.ne', if_false, hlen, ne_eq,
        not_true_eq_false]
    · exact ⟨fun _ => hcomplete.mp hlen, fun _ => ⟨_, rfl⟩⟩
    · intro plan hplan
      cases hplan
      exact hs.levelling hg hne hlen
  · refine ⟨s, errSet .state "Cycle detected in execution graph",
      fun fuel hfuel => ⟨hkahn fuel hfuel, ?_⟩, hs.inv.dropped, ?_, ?_⟩
    · simp only [hbiSchedulerCreatePlan, hkahn fuel hfuel, hne.ne', if_false, hlen, ne_eq,
        not_false_eq_true, if_true]
    · constructor
      · rintro ⟨plan, hplan⟩
        simp at hplan
      · intro hacyclic
        exact absurd (hcomplete.mpr hacyclic) hlen
    · intro plan hplan
      simp at hplan

/-- A fill whose only value is read twice by the node after it. -/
def repeatedInputBuilder : Builder :=
  let b := (hbiGraphAddNode .empty (some "fill") .fill none [] 1).1
  (hbiGraphAddNode b (some "add") .elementwise none [0, 0] 1).1

theorem repeatedInputBuilder_reached : repeatedInputBuilder.Reached := by
  have hfill := @Builder.Reached.node _ _ (some "fill") .fill none [] 1 _ .empty rfl
  exact @Builder.Reached.node _ _ (some "add") .elementwise none [0, 0] 1 _ hfill rfl

theorem scheduler_plan_exact_levelling_repeated_input :
    ∃ (g : Graph) (plan : ExecutionPlan), g.deps 1 = [0, 0] ∧
      hbiSchedulerCreatePlan 3 g = some (.ok plan) ∧ plan.Levelling g ∧
      plan.stages.map ExecutionStage.tasks = [[0], [1]] := by
  have hsized := repeatedInputBuilder_reached.wellFormed.sized
  obtain ⟨s, r, hrun, -, -, hplan⟩ := scheduler_plan_exact_levelling hsized (by decide)
  have hok : hbiSchedulerCreatePlan 3 repeatedInputBuilder.finished = some (.ok _) := rfl
  have hr : r = .ok _ := Option.some.inj ((hrun 3 (by decide)).2.symm.trans hok)
  exact ⟨_, _, by decide, hok, hplan _ hr, by decide⟩

end Hummingbird
