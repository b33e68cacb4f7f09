import Hummingbird.Scheduler.Edges
import Hummingbird.Foundation.Levels

/-!
The invariant of the traversal. Between two queue operations the residual in-degree
of a task counts its dependencies that are not sorted yet, plus the edges of the
task just taken that are still to be relaxed; the tasks that were ever queued are
those whose residual in-degree is zero. Pops, relaxed edges and whole stages keep
it, and the queue never has to refuse a push.
-/

namespace Hummingbird

/-- The queued task identifiers, oldest first. -/
def TaskQueue.contents (q : TaskQueue) : List Nat := Ring.contents 0 q.taskIds q.head q.count

/-- The shape of a ring that was only pushed to and popped from. -/
structure TaskQueue.Sound (q : TaskQueue) (capacity : Nat) : Prop where
  capacity_eq : q.capacity = capacity
  slots : q.taskIds.length = capacity
  count_le : q.count ≤ capacity
  head_lt : q.head < capacity
  tail_eq : q.tail = (q.head + q.count) % capacity

theorem taskQueueInit_sound {n : Nat} (hn : 0 < n) :
    (taskQueueInit n).Sound n ∧ (taskQueueInit n).contents = [] := by
  refine ⟨⟨rfl, by simp [taskQueueInit], Nat.zero_le _, hn, ?_⟩, rfl⟩
  simp [taskQueueInit]

theorem TaskQueue.length_contents (q : TaskQueue) : q.contents.length = q.count :=
  Ring.length_contents _ _ _ _

/-- A push with room appends. -/
theorem taskQueuePush_sound {q : TaskQueue} {n v : Nat} (h : q.Sound n) (hroom : q.count < n) :
    (taskQueuePush q v).Sound n ∧ (taskQueuePush q v).contents = q.contents ++ [v] := by
  have hcap : q.count < q.capacity := h.capacity_eq ▸ hroom
  have hpush : taskQueuePush q v = { q with
      taskIds := q.taskIds.set q.tail v
      tail := (q.tail + 1) % q.capacity
      count := q.count + 1 } := if_pos hcap
  rw [hpush]
  refine ⟨⟨h.capacity_eq, by simpa using h.slots, hroom, h.head_lt, ?_⟩, ?_⟩
  · simp only [h.tail_eq, h.capacity_eq, Nat.mod_add_mod, Nat.add_assoc]
  · have hslots : q.count < q.taskIds.length := h.slots ▸ hroom
    have hset := @Ring.contents_push Nat 0 q.taskIds q.head q.count v hslots
    simpa only [TaskQueue.contents, h.tail_eq, h.slots] using hset

/-- A pop of a non-empty queue takes the oldest entry. -/
theorem taskQueuePop_sound {q : TaskQueue} {n u : Nat} {rest : List Nat} (h : q.Sound n)
    (hq : q.contents = u :: rest) :
    (taskQueuePop q).1 = u ∧ (taskQueuePop q).2.Sound n ∧
      (taskQueuePop q).2.contents = rest := by
  have hcount : q.count = rest.length + 1 := by
    rw [← TaskQueue.length_contents, hq, List.length_cons]
  have hpop : taskQueuePop q = (q.taskIds.getD q.head 0,
      { q with head := (q.head + 1) % q.capacity, count := q.count - 1 }) := if_pos (by omega)
  have hcons := Ring.contents_pop 0 q.taskIds q.head rest.length
  rw [TaskQueue.contents, hcount, hcons, h.slots, Nat.mod_eq_of_lt h.head_lt] at hq
  obtain ⟨hhead, htail⟩ := List.cons.inj hq
  rw [hpop]
  refine ⟨hhead, ⟨h.capacity_eq, h.slots, ?_, ?_, ?_⟩, ?_⟩
  · have := h.count_le
    simp only
    omega
  · rw [h.capacity_eq]
    exact Nat.mod_lt _ (by have := h.head_lt; omega)
  · simp only [h.tail_eq, h.capacity_eq, Nat.mod_add_mod]
    congr 1
    omega
  · simp only [TaskQueue.contents, h.capacity_eq, hcount, Nat.add_sub_cancel]
    exact htail

/-- The invariant between two queue operations, with the edges `todo` of the task
just taken still to be relaxed. -/
structure KahnState.Inv (g : Graph) (s : KahnState) (todo : List Nat) : Prop where
  queue : s.queue.Sound (hbiGraphNumNodes g)
  degree_len : s.inDegree.length = hbiGraphNumNodes g
  stage_len : s.executionStage.length = hbiGraphNumNodes g
  nodup : (s.sortedOrder ++ s.queue.contents).Nodup
  degree : ∀ v < hbiGraphNumNodes g,
    s.inDegree.getD v 0 = (g.deps v).countP (· ∉ s.sortedOrder) + todo.count v
  degree_le : ∀ v < hbiGraphNumNodes g, s.inDegree.getD v 0 ≤ hbiKernelMaxInputs
  ready_iff : ∀ v, v ∈ s.sortedOrder ++ s.queue.contents ↔
    v < hbiGraphNumNodes g ∧ s.inDegree.getD v 0 = 0
  dropped : s.dropped = 0

theorem KahnState.Inv.sorted_length_le {g : Graph} {s : KahnState} {todo : List Nat}
    (h : s.Inv g todo) :
    s.sortedOrder.length + s.queue.count ≤ hbiGraphNumNodes g := by
  have hsub : s.sortedOrder ++ s.queue.contents ⊆ List.range (hbiGraphNumNodes g) := by
    intro v hv
    exact List.mem_range.mpr ((h.ready_iff v).mp hv).1
  have hle := (h.nodup.subperm hsub).length_le
  rwa [List.length_append, TaskQueue.length_contents, List.length_range] at hle

/-- A push of a task that was not queued before fits into the queue. -/
theorem KahnState.Inv.room {g : Graph} {s : KahnState} {todo : List Nat} {v : Nat}
    (h : s.Inv g todo) (hv : v < hbiGraphNumNodes g)
    (hnew : v ∉ s.sortedOrder ++ s.queue.contents) : s.queue.count < hbiGraphNumNodes g := by
  have hnodup : (v :: (s.sortedOrder ++ s.queue.contents)).Nodup :=
    List.nodup_cons.mpr ⟨hnew, h.nodup⟩
  have hsub : v :: (s.sortedOrder ++ s.queue.contents) ⊆ List.range (hbiGraphNumNodes g) := by
    intro w hw
    rcases List.mem_cons.mp hw with rfl | hw
    · exact List.mem_range.mpr hv
    · exact List.mem_range.mpr ((h.ready_iff w).mp hw).1
  have hle := (hnodup.subperm hsub).length_le
  rw [List.length_cons, List.length_append, TaskQueue.length_contents, List.length_range] at hle
  omega

/-- What relaxing edges leaves alone: everything but the in-degrees, and the queue
only grows at its end. -/
structure KahnState.Frame (s s' : KahnState) : Prop where
  sorted_eq : s'.sortedOrder = s.sortedOrder
  stage_eq : s'.executionStage = s.executionStage
  stages_eq : s'.stages = s.stages
  depth_eq : s'.maxDepth = s.maxDepth
  contents : ∃ new, s'.queue.contents = s.queue.contents ++ new

theorem KahnState.Frame.refl (s : KahnState) : s.Frame s :=
  ⟨rfl, rfl, rfl, rfl, [], by simp⟩

theorem KahnState.Frame.trans {s t u : KahnState} (h : s.Frame t) (h' : t.Frame u) :
    s.Frame u := by
  obtain ⟨new, hnew⟩ := h.contents
  obtain ⟨more, hmore⟩ := h'.contents
  exact ⟨h'.sorted_eq.trans h.sorted_eq, h'.stage_eq.trans h.stage_eq,
    h'.stages_eq.trans h.stages_eq, h'.depth_eq.trans h.depth_eq, new ++ more,
    by rw [hmore, hnew, List.append_assoc]⟩

/-- A push that the queue has room for. -/
theorem KahnState.push_sound {s : KahnState} {n v : Nat} (hq : s.queue.Sound n)
    (hroom : s.queue.count < n) :
    (s.push v).queue.Sound n ∧ (s.push v).queue.contents = s.queue.contents ++ [v] ∧
      (s.push v).dropped = s.dropped ∧ (s.push v).inDegree = s.inDegree ∧
      s.Frame (s.push v) := by
  obtain ⟨hsound, hcontents⟩ := @taskQueuePush_sound s.queue n v hq hroom
  have hcap : s.queue.count < s.queue.capacity := hq.capacity_eq ▸ hroom
  exact ⟨hsound, hcontents, if_pos hcap, rfl, rfl, rfl, rfl, rfl, [v], hcontents⟩

/-- A state in which a task has lost one incoming edge. -/
def KahnState.lower (s : KahnState) (v : Nat) : KahnState :=
  { s with inDegree := s.inDegree.set v (s.inDegree.getD v 0 - 1) }

theorem KahnState.frame_lower (s : KahnState) (v : Nat) : s.Frame (s.lower v) :=
  ⟨rfl, rfl, rfl, rfl, [], by simp [KahnState.lower]⟩

theorem KahnState.Inv.lower_getD {g : Graph} {s : KahnState} {v : Nat} {todo : List Nat}
    (h : s.Inv g todo) (hv : v < hbiGraphNumNodes g) (w : Nat) :
    (s.lower v).inDegree.getD w 0 =
      if v = w then s.inDegree.getD v 0 - 1 else s.inDegree.getD w 0 := by
  rw [KahnState.lower, Table.getD_set, h.degree_len]
  by_cases hw : v = w
  · simp [hw ▸ hv, hw]
  · simp [hw]

/-- The lowered in-degrees account for one edge less. -/
theorem KahnState.Inv.lower_degree {g : Graph} {s : KahnState} {v w : Nat} {todo : List Nat}
    (h : s.Inv g (v :: todo)) (hv : v < hbiGraphNumNodes g) (hw : w < hbiGraphNumNodes g) :
    (s.lower v).inDegree.getD w 0 =
      (g.deps w).countP (· ∉ s.sortedOrder) + todo.count w := by
  have hdeg := h.degree w hw
  rw [h.lower_getD hv]
  by_cases hvw : v = w
  · subst hvw
    rw [List.count_cons_self] at hdeg
    rw [if_pos rfl, hdeg]
    omega
  · rw [if_neg hvw, hdeg, List.count_cons_of_ne hvw]

theorem KahnState.Inv.lower_le {g : Graph} {s : KahnState} {v w : Nat} {todo : List Nat}
    (h : s.Inv g todo) (hv : v < hbiGraphNumNodes g) (hw : w < hbiGraphNumNodes g) :
    (s.lower v).inDegree.getD w 0 ≤ hbiKernelMaxInputs := by
  have hle := h.degree_le w hw
  rw [h.lower_getD hv]
  by_cases hvw : v = w
  · subst hvw
    rw [if_pos rfl]
    omega
  · rwa [if_neg hvw]

/-- A task with an edge left to relax has not been queued. -/
theorem KahnState.Inv.not_queued {g : Graph} {s : KahnState} {v : Nat} {todo : List Nat}
    (h : s.Inv g (v :: todo)) (hv : v < hbiGraphNumNodes g) :
    0 < s.inDegree.getD v 0 ∧ v ∉ s.sortedOrder ++ s.queue.contents := by
  have hdeg := h.degree v hv
  rw [List.count_cons_self] at hdeg
  refine ⟨by omega, ?_⟩
  intro hmem
  have := ((h.ready_iff v).mp hmem).2
  omega

/-- The last edge of a task is relaxed: the task is queued. -/
theorem KahnState.Inv.lower_push {g : Graph} {s : KahnState} {v : Nat} {todo : List Nat}
    (h : s.Inv g (v :: todo)) (hv : v < hbiGraphNumNodes g)
    (hzero : (s.lower v).inDegree.getD v 0 = 0) :
    ((s.lower v).push v).Inv g todo ∧ s.Frame ((s.lower v).push v) := by
  have hnew := (h.not_queued hv).2
  obtain ⟨hsound, hcontents, hdrop, hin, hpush⟩ := @KahnState.push_sound (s.lower v) _ v
    h.queue (h.room hv hnew)
  refine ⟨⟨hsound, ?_, ?_, ?_, ?_, ?_, ?_, ?_⟩, (s.frame_lower v).trans hpush⟩
  · rw [hin]
    simpa [KahnState.lower] using h.degree_len
  · rw [hpush.stage_eq]
    exact h.stage_len
  · rw [hpush.sorted_eq, hcontents, ← List.append_assoc]
    exact h.nodup.append (List.nodup_singleton v) (by simpa using hnew)
  · rw [hin, hpush.sorted_eq]
    exact fun w hw => h.lower_degree hv hw
  · rw [hin]
    exact fun w hw => h.lower_le hv hw
  · intro w
    rw [hin, hpush.sorted_eq, hcontents, ← List.append_assoc, List.mem_append,
      List.mem_singleton]
    change w ∈ s.sortedOrder ++ s.queue.contents ∨ w = v ↔ _
    rw [h.ready_iff]
    by_cases hvw : v = w
    · subst hvw
      exact ⟨fun _ => ⟨hv, hzero⟩, fun _ => Or.inr rfl⟩
    · rw [h.lower_getD hv, if_neg hvw]
      simp [Ne.symm hvw]
  · rw [hdrop]
    exact h.dropped

/-- An edge is relaxed and others are left: the task waits. -/
theorem KahnState.Inv.lower_wait {g : Graph} {s : KahnState} {v : Nat} {todo : List Nat}
    (h : s.Inv g (v :: todo)) (hv : v < hbiGraphNumNodes g)
    (hpos : (s.lower v).inDegree.getD v 0 ≠ 0) : (s.lower v).Inv g todo := by
  refine ⟨h.queue, ?_, h.stage_len, h.nodup, fun w hw => h.lower_degree hv hw,
    fun w hw => h.lower_le hv hw, ?_, h.dropped⟩
  · simpa [KahnState.lower] using h.degree_len
  · intro w
    change w ∈ s.sortedOrder ++ s.queue.contents ↔ _
    rw [h.ready_iff]
    by_cases hvw : v = w
    · subst hvw
      have := (h.not_queued hv).1
      simp only [hpos, and_false, iff_false, not_and]
      omega
    · rw [h.lower_getD hv, if_neg hvw]

/-- Relaxing one edge. -/
theorem relaxEdge_inv {g : Graph} {s : KahnState} {v : Nat} {todo : List Nat}
    (h : s.Inv g (v :: todo)) (hv : v < hbiGraphNumNodes g) :
    (relaxEdge s v).Inv g todo ∧ s.Frame (relaxEdge s v) := by
  have hpos := (h.not_queued hv).1
  have hle := h.degree_le v hv
  have hdec : (s.inDegree.getD v 0 + (uint32Size - 1)) % uint32Size =
      s.inDegree.getD v 0 - 1 := by
    simp only [hbiKernelMaxInputs, uint32Size] at hle ⊢
    omega
  have hrelax : relaxEdge s v =
      if (s.lower v).inDegree.getD v 0 = 0 then (s.lower v).push v else s.lower v := by
    rw [h.lower_getD hv, if_pos rfl]
    simp only [relaxEdge, hdec, KahnState.lower]
  rw [hrelax]
  by_cases hzero : (s.lower v).inDegree.getD v 0 = 0
  · rw [if_pos hzero]
    exact h.lower_push hv hzero
  · rw [if_neg hzero]
    exact ⟨h.lower_wait hv hzero, s.frame_lower v⟩

/-- Relaxing all edges of a task. -/
theorem relaxEdges_inv {g : Graph} {s : KahnState} {todo : List Nat} (h : s.Inv g todo)
    (htodo : ∀ v ∈ todo, v < hbiGraphNumNodes g) :
    (todo.foldl relaxEdge s).Inv g [] ∧ s.Frame (todo.foldl relaxEdge s) := by
  induction todo generalizing s with
  | nil =>
      rw [List.foldl_nil]
      exact ⟨h, KahnState.Frame.refl s⟩
  | cons v todo ih =>
      rw [List.foldl_cons]
      obtain ⟨hstep, hframe⟩ := relaxEdge_inv h (htodo v (by simp))
      obtain ⟨hrest, hframe'⟩ := ih hstep fun w hw => htodo w (by simp [hw])
      exact ⟨hrest, hframe.trans hframe'⟩

private theorem countP_not_mem_snoc {xs sorted : List Nat} {u : Nat} (hu : u ∉ sorted) :
    xs.countP (· ∉ sorted) = xs.countP (· ∉ sorted ++ [u]) + xs.count u := by
  induction xs with
  | nil => rfl
  | cons x xs ih =>
      rw [List.countP_cons, List.countP_cons, List.count_cons, ih]
      by_cases hx : x = u
      · subst hx
        simp [hu]
        omega
      · by_cases hmem : x ∈ sorted
        · simp [hx, hmem]
        · simp [hx, hmem]
          omega

/-- Taking the oldest task off the queue moves it to the sorted order and leaves
all of its outgoing edges to be relaxed. -/
theorem visitTask_inv {g : Graph} {s : KahnState} {stageId u : Nat} {rest : List Nat}
    (h : s.Inv g []) (hq : s.queue.contents = u :: rest) :
    (visitTask (edgeLists g).outEdges stageId s).1 = u ∧
      (visitTask (edgeLists g).outEdges stageId s).2.Inv g [] ∧
      KahnState.Frame
        { s with
          queue := (taskQueuePop s.queue).2
          sortedOrder := s.sortedOrder ++ [u]
          executionStage := s.executionStage.set u stageId }
        (visitTask (edgeLists g).outEdges stageId s).2 ∧
      (taskQueuePop s.queue).2.contents = rest := by
  obtain ⟨hpop, hsound, hrest⟩ := taskQueuePop_sound h.queue hq
  have hu : u < hbiGraphNumNodes g := ((h.ready_iff u).mp (by simp [hq])).1
  have hnodup := h.nodup
  rw [hq, ← List.singleton_append, ← List.append_assoc] at hnodup
  have hfresh : u ∉ s.sortedOrder := by
    have := (List.nodup_append.mp hnodup).1
    rw [List.nodup_append] at this
    intro hmem
    exact this.2.2 u hmem u (by simp) rfl
  obtain ⟨t, ht⟩ : ∃ t : KahnState, t = { s with
      queue := (taskQueuePop s.queue).2
      sortedOrder := s.sortedOrder ++ [u]
      executionStage := s.executionStage.set u stageId } := ⟨_, rfl⟩
  have hinv : t.Inv g ((edgeLists g).outEdges.getD u []) := by
    rw [ht]
    refine ⟨hsound, h.degree_len, by simpa using h.stage_len, ?_, ?_, h.degree_le, ?_,
      h.dropped⟩
    · simp only [hrest]
      exact hnodup
    · intro v hv
      have hdeg := h.degree v hv
      rw [List.count_nil, Nat.add_zero, countP_not_mem_snoc hfresh] at hdeg
      rw [count_outEdges hu hv]
      exact hdeg
    · intro v
      have hready := h.ready_iff v
      rw [hq, ← List.singleton_append, ← List.append_assoc] at hready
      simp only [hrest]
      exact hready
  obtain ⟨hdone, hframe⟩ := relaxEdges_inv hinv fun v hv => mem_outEdges hv hu
  have hvisit : visitTask (edgeLists g).outEdges stageId s =
      (u, ((edgeLists g).outEdges.getD u []).foldl relaxEdge t) := by
    simp only [visitTask, hpop, ht]
  rw [hvisit, ← ht]
  exact ⟨rfl, hdone, hframe, hrest⟩

/-- The inner loop takes exactly the tasks that were queued when the stage began. -/
theorem levelLoop_inv {g : Graph} {s : KahnState} {stageId : Nat} {front back : List Nat}
    (h : s.Inv g []) (hq : s.queue.contents = front ++ back) :
    ∃ s', levelLoop (edgeLists g).outEdges stageId front.length s = (front, s') ∧
      s'.Inv g [] ∧ s'.sortedOrder = s.sortedOrder ++ front ∧
      (∃ new, s'.queue.contents = back ++ new) ∧ s'.stages = s.stages ∧
      s'.maxDepth = s.maxDepth ∧
      ∀ v, s'.executionStage.getD v 0 =
        if v ∈ front then stageId else s.executionStage.getD v 0 := by
  induction front generalizing s back with
  | nil => exact ⟨s, rfl, h, by simp, ⟨[], by simpa using hq⟩, rfl, rfl, by simp⟩
  | cons u front ih =>
      obtain ⟨hu, hinv, hframe, hrest⟩ := @visitTask_inv g s stageId u (front ++ back) h hq
      obtain ⟨t, ht⟩ : ∃ t, t = (visitTask (edgeLists g).outEdges stageId s).2 := ⟨_, rfl⟩
      rw [← ht] at hinv hframe
      obtain ⟨new, hnew⟩ := hframe.contents
      simp only [hrest, List.append_assoc] at hnew
      obtain ⟨s', hloop, hinv', hsorted, ⟨more, hmore⟩, hstages, hdepth, hstage⟩ := ih hinv hnew
      have hult : u < hbiGraphNumNodes g := ((h.ready_iff u).mp (by simp [hq])).1
      refine ⟨s', ?_, hinv', ?_, ⟨new ++ more, by rw [hmore, List.append_assoc]⟩,
        hstages.trans hframe.stages_eq, hdepth.trans hframe.depth_eq, ?_⟩
      · simp only [List.length_cons, levelLoop, ← ht, hloop, hu]
      · rw [hsorted, hframe.sorted_eq]
        simp
      · intro v
        rw [hstage v, hframe.stage_eq, Table.getD_set, h.stage_len]
        by_cases hv : v ∈ front
        · simp [hv]
        · by_cases huv : u = v
          · subst huv
            simp [hult]
          · simp [hv, huv, Ne.symm huv]

/-- The loop that fills the queue: every task without incoming edges is pushed. -/
theorem pushReady_sound {n k : Nat} {degrees : List Nat} {t : KahnState} (ht : t.queue.Sound n)
    (hempty : t.queue.contents = []) (hk : k ≤ n) :
    ∃ s, (List.range k).foldl (fun s i => if degrees.getD i 0 = 0 then s.push i else s) t = s ∧
      s.queue.Sound n ∧ s.queue.contents = (List.range k).filter (degrees.getD · 0 = 0) ∧
      s.dropped = t.dropped ∧ s.inDegree = t.inDegree ∧ t.Frame s := by
  induction k with
  | zero => exact ⟨t, rfl, ht, hempty, rfl, rfl, KahnState.Frame.refl t⟩
  | succ k ih =>
      obtain ⟨s, hs, hsound, hcontents, hdrop, hin, hframe⟩ := ih (by omega)
      have hroom : s.queue.count < n := by
        rw [← TaskQueue.length_contents, hcontents]
        have := List.length_filter_le (degrees.getD · 0 = 0) (List.range k)
        rw [List.length_range] at this
        omega
      rw [List.range_succ, List.foldl_append, hs, List.foldl_cons, List.foldl_nil,
        List.filter_append]
      by_cases hzero : degrees.getD k 0 = 0
      · obtain ⟨hsound', hcontents', hdrop', hin', hpush⟩ :=
          @KahnState.push_sound s _ k hsound hroom
        rw [if_pos hzero]
        refine ⟨_, rfl, hsound', ?_, hdrop'.trans hdrop, hin'.trans hin, hframe.trans hpush⟩
        rw [hcontents', hcontents, List.filter_cons_of_pos (by simpa using hzero),
          List.filter_nil]
      · rw [if_neg hzero]
        refine ⟨s, rfl, hsound, ?_, hdrop, hin, hframe⟩
        rw [hcontents, List.filter_cons_of_neg (by simpa using hzero), List.filter_nil,
          List.append_nil]

/-- The queue the traversal starts with: the tasks without dependencies. -/
theorem kahnInit_inv {g : Graph} (hg : g.Sized) (hne : 0 < hbiGraphNumNodes g) :
    (kahnInit g).Inv g [] ∧ (kahnInit g).sortedOrder = [] ∧ (kahnInit g).stages = [] ∧
      (kahnInit g).maxDepth = 0 := by
  obtain ⟨hsound₀, hcontents₀⟩ := taskQueueInit_sound hne
  obtain ⟨s, hs, hsound, hcontents, hdrop, hin, hframe⟩ :=
    @pushReady_sound (hbiGraphNumNodes g) (hbiGraphNumNodes g) (edgeCounts g).inDegree
      ⟨taskQueueInit (hbiGraphNumNodes g), (edgeCounts g).inDegree,
        List.replicate (hbiGraphNumNodes g) 0, [], [], 0, 0⟩ hsound₀ hcontents₀ le_rfl
  have hinit : kahnInit g = s := by
    rw [← hs]
    rfl
  have hsorted : s.sortedOrder = [] := hframe.sorted_eq
  rw [hinit]
  refine ⟨⟨hsound, ?_, ?_, ?_, ?_, ?_, ?_, hdrop⟩, hsorted, hframe.stages_eq, hframe.depth_eq⟩
  · rw [hin]
    exact length_edgeCounts_inDegree g
  · rw [hframe.stage_eq]
    simp
  · rw [hsorted, hcontents, List.nil_append]
    exact List.nodup_range.filter _
  · intro v hv
    rw [hin, edgeCounts_inDegree hg hv, hsorted]
    simp
  · intro v hv
    rw [hin, edgeCounts_inDegree hg hv]
    exact hg.deps_length v
  · intro v
    rw [hsorted, hcontents, hin]
    simp [List.mem_filter]

end Hummingbird
