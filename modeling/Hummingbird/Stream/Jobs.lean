import Hummingbird.Stream.Run

/-!
Read jobs. At most one job for a block is on its way, counted from the prefetch that hands
it to the pool up to the worker that ends it, and the block is in transit all that time; a
worker that is to allocate still finds no buffer. That a block in transit has a job needs
more: every submission has to be accepted.
-/

namespace Hummingbird

namespace Cache

/-- The read jobs for a block that are queued in the pool, run by a worker or handed over
by a prefetch that has not returned. -/
def pending (c : Cache) (loads : List Load) (i : Nat) : Nat :=
  loads.countP (·.block? == some i) + c.queue.count i

structure Jobs (c : Cache) (loads : List Load) : Prop where
  once : ∀ i, c.pending loads i ≤ 1
  transit : ∀ i, c.pending loads i ≠ 0 → ∃ b, c.blocks[i]? = some b ∧ b.status = .inTransit
  empty : ∀ i b, .empty i ∈ loads → c.blocks[i]? = some b → b.ramPtr = none

variable {c : Cache} {loads : List Load} {t i : Nat} {l : Load} {b : CacheBlock}

theorem pending_set (hl : loads[t]? = some l) (l' : Load) (j : Nat) :
    c.pending (loads.set t l') j + (l.block? == some j).toNat =
      c.pending loads j + (l'.block? == some j).toNat := by
  have hcount := Table.countP_set hl (·.block? == some j) l'
  unfold pending
  omega

theorem pending_pos_of_load (hl : loads[t]? = some l) (hi : l.block? = some i) :
    c.pending loads i ≠ 0 := by
  have hpos : 0 < loads.countP (·.block? == some i) :=
    List.countP_pos_iff.mpr ⟨l, List.mem_of_getElem? hl, by simp [hi]⟩
  unfold pending
  omega

theorem pending_append {j k : Nat} :
    pending { c with queue := c.queue ++ [k] } loads j = c.pending loads j + (k == j).toNat := by
  unfold pending
  rw [List.count_append, List.count_singleton]
  cases k == j with
  | false => simp
  | true => simp [Nat.add_assoc]

theorem pending_tail {j k : Nat} {rest : List Nat} (hqueue : c.queue = k :: rest) :
    pending { c with queue := rest } loads j + (k == j).toNat = c.pending loads j := by
  unfold pending
  rw [hqueue, List.count_cons]
  cases k == j with
  | false => simp
  | true => simp [Nat.add_assoc]

/-- A block of the table after one of its blocks was replaced. -/
theorem setBlock_cases {j : Nat} {b' bj : CacheBlock} (hb : c.blocks[i]? = some b)
    (hbj : (c.setBlock i b').blocks[j]? = some bj) :
    i = j ∧ b' = bj ∨ i ≠ j ∧ c.blocks[j]? = some bj := by
  change (c.blocks.set i b')[j]? = some bj at hbj
  rw [Table.getElem?_set_of hb] at hbj
  by_cases hij : i = j
  · rw [if_pos hij, Option.some.injEq] at hbj
    exact Or.inl ⟨hij, hbj⟩
  · rw [if_neg hij] at hbj
    exact Or.inr ⟨hij, hbj⟩

/-- A block in transit stays in transit when it is not the one that is replaced, or when
that one is in transit too. -/
theorem setBlock_inTransit {j : Nat} {b' : CacheBlock} (hb : c.blocks[i]? = some b)
    (hj : ∃ bj, c.blocks[j]? = some bj ∧ bj.status = .inTransit)
    (hself : i = j → b.status = .inTransit → b'.status = .inTransit) :
    ∃ bj, (c.setBlock i b').blocks[j]? = some bj ∧ bj.status = .inTransit := by
  obtain ⟨bj, hbj, hin⟩ := hj
  change ∃ bj, (c.blocks.set i b')[j]? = some bj ∧ _
  rw [Table.getElem?_set_of hb]
  by_cases hij : i = j
  · subst hij
    rw [hb, Option.some.injEq] at hbj
    exact ⟨b', if_pos rfl, hself rfl (hbj ▸ hin)⟩
  · exact ⟨bj, by rw [if_neg hij, hbj], hin⟩

namespace Jobs

/-- A block changes, stays in transit if it was, and gets no buffer. -/
theorem setBlock (h : c.Jobs loads) (hb : c.blocks[i]? = some b) (b' : CacheBlock)
    (hstatus : b.status = .inTransit → b'.status = .inTransit)
    (hptr : b.ramPtr = none → b'.ramPtr = none) : (c.setBlock i b').Jobs loads := by
  refine ⟨h.once, ?_, ?_⟩
  · intro j hj
    exact setBlock_inTransit hb (h.transit j hj) fun _ => hstatus
  · intro j bj hmem hbj
    rcases setBlock_cases hb hbj with ⟨rfl, rfl⟩ | ⟨-, hbj⟩
    · exact hptr (h.empty i b hmem hb)
    · exact h.empty j bj hmem hbj

/-- A thread goes on with the load it carries. -/
theorem setLoad (h : c.Jobs loads) (hl : loads[t]? = some l) {l' : Load}
    (hblock : l'.block? = l.block?)
    (hempty : ∀ i b, l' = .empty i → c.blocks[i]? = some b → b.ramPtr = none) :
    c.Jobs (loads.set t l') := by
  have hpending : ∀ j, c.pending (loads.set t l') j = c.pending loads j := by
    intro j
    have hset := @pending_set c loads t l hl l' j
    rw [hblock] at hset
    omega
  refine ⟨?_, ?_, ?_⟩
  · intro j
    rw [hpending]
    exact h.once j
  · intro j hj
    rw [hpending] at hj
    exact h.transit j hj
  · intro j bj hmem hbj
    rcases List.mem_or_eq_of_mem_set hmem with hmem | heq
    · exact h.empty j bj hmem hbj
    · exact hempty j bj heq.symm hbj

/-- No other thread carries a load of the block. -/
theorem no_other (h : c.Jobs loads) (hl : loads[t]? = some l) (hi : l.block? = some i)
    {l' m : Load} (hm : m ∈ loads.set t l') (hne : m ≠ l') : m.block? ≠ some i := by
  intro hmi
  have hother : m ∈ loads.set t .away := by
    obtain ⟨k, hk⟩ := List.mem_iff_getElem?.mp hm
    rw [Table.getElem?_set_of hl] at hk
    split at hk
    · exact absurd (Option.some.inj hk).symm hne
    · rename_i hkt
      apply List.mem_of_getElem? (i := k)
      rw [Table.getElem?_set_of hl, if_neg hkt, hk]
  have hset := @pending_set c loads t l hl .away i
  have honce := h.once i
  obtain ⟨k, hk⟩ := List.mem_iff_getElem?.mp hother
  have hpos := @pending_pos_of_load c (loads.set t .away) k i m hk hmi
  have hzero : (Load.away.block? == some i).toNat = 0 := rfl
  rw [hi, beq_self_eq_true, Bool.toNat_true] at hset
  omega

/-- A load of which nothing becomes. -/
theorem dropLoad (h : c.Jobs loads) (hl : loads[t]? = some l) : c.Jobs (loads.set t .away) := by
  have hpending : ∀ j, c.pending (loads.set t .away) j ≤ c.pending loads j := by
    intro j
    have hset := @pending_set c loads t l hl .away j
    have hzero : (Load.away.block? == some j).toNat = 0 := rfl
    omega
  refine ⟨fun j => (hpending j).trans (h.once j), ?_, ?_⟩
  · intro j hj
    have hle := hpending j
    exact h.transit j (by omega)
  · intro j bj hmem hbj
    rcases List.mem_or_eq_of_mem_set hmem with hmem | heq
    · exact h.empty j bj hmem hbj
    · cases heq

theorem pending_eq_zero (h : c.Jobs loads) (hb : c.blocks[i]? = some b)
    (hstatus : b.status ≠ .inTransit) : c.pending loads i = 0 := by
  by_contra hne
  obtain ⟨b', hb', hin⟩ := h.transit i hne
  rw [hb, Option.some.injEq] at hb'
  exact hstatus (hb' ▸ hin)

/-- A prefetch puts an evicted block in transit and carries its load. -/
theorem prefetch (h : c.Jobs loads) (hb : c.blocks[i]? = some b) (hstatus : b.status = .evicted)
    (hl : loads[t]? = some .away) :
    (c.setBlock i { b with status := .inTransit }).Jobs (loads.set t (.submitting i)) := by
  have hzero := h.pending_eq_zero hb (by rw [hstatus]; decide)
  have hblock : (c.setBlock i { b with status := .inTransit }).Jobs loads :=
    h.setBlock hb _ (fun _ => rfl) id
  have hpending : ∀ j, (c.setBlock i { b with status := .inTransit }).pending
      (loads.set t (.submitting i)) j = c.pending loads j + (i == j).toNat := by
    intro j
    have hset := @pending_set c loads t .away hl (.submitting i) j
    exact hset
  refine ⟨?_, ?_, ?_⟩
  · intro j
    rw [hpending]
    by_cases hij : i = j
    · subst hij
      rw [hzero, beq_self_eq_true]
      decide
    · rw [beq_false_of_ne hij]
      exact h.once j
  · intro j hj
    by_cases hij : i = j
    · subst hij
      refine ⟨{ b with status := .inTransit }, ?_, rfl⟩
      change (c.blocks.set i _)[i]? = _
      rw [Table.getElem?_set_of hb, if_pos rfl]
    · rw [hpending, beq_false_of_ne hij] at hj
      exact hblock.transit j hj
  · intro j bj hmem hbj
    rcases List.mem_or_eq_of_mem_set hmem with hmem | heq
    · exact hblock.empty j bj hmem hbj
    · cases heq

/-- The load goes from the prefetch into the queue. -/
theorem accept (h : c.Jobs loads) (hl : loads[t]? = some (.submitting i)) :
    Jobs { c with queue := c.queue ++ [i] } (loads.set t .away) := by
  have hpending : ∀ j, pending { c with queue := c.queue ++ [i] } (loads.set t .away) j =
      c.pending loads j := by
    intro j
    have hset := @pending_set c loads t _ hl .away j
    rw [pending_append]
    exact hset
  have hdrop := h.dropLoad hl
  refine ⟨?_, ?_, hdrop.empty⟩
  · intro j
    rw [hpending]
    exact h.once j
  · intro j hj
    rw [hpending] at hj
    exact h.transit j hj

/-- The load goes from the queue to the worker that takes it. -/
theorem take (h : c.Jobs loads) (hl : loads[t]? = some .away) {rest : List Nat}
    (hqueue : c.queue = i :: rest) :
    Jobs { c with queue := rest } (loads.set t (.fetched i)) := by
  have hpending : ∀ j, pending { c with queue := rest } (loads.set t (.fetched i)) j =
      c.pending loads j := by
    intro j
    have hset := @pending_set { c with queue := rest } loads t _ hl (.fetched i) j
    have htail := @pending_tail c loads j i rest hqueue
    rw [← htail]
    exact hset
  refine ⟨?_, ?_, ?_⟩
  · intro j
    rw [hpending]
    exact h.once j
  · intro j hj
    rw [hpending] at hj
    exact h.transit j hj
  · intro j bj hmem hbj
    rcases List.mem_or_eq_of_mem_set hmem with hmem | heq
    · exact h.empty j bj hmem hbj
    · cases heq

/-- The worker that found no buffer stores one. -/
theorem alloc (h : c.Jobs loads) (hl : loads[t]? = some (.empty i))
    (hb : c.blocks[i]? = some b) (b' : CacheBlock) (hstatus : b'.status = b.status) :
    (c.setBlock i b').Jobs (loads.set t (.loading i)) := by
  have hload : c.Jobs (loads.set t (.loading i)) := h.setLoad hl rfl (by simp)
  refine ⟨hload.once, ?_, ?_⟩
  · intro j hj
    apply setBlock_inTransit hb (hload.transit j hj)
    exact fun _ hin => hstatus.trans hin
  · intro j bj hmem hbj
    rcases setBlock_cases hb hbj with ⟨rfl, -⟩ | ⟨-, hbj⟩
    · exact absurd rfl (h.no_other hl rfl hmem (by simp))
    · exact hload.empty j bj hmem hbj

/-- The worker ends the load of its block. -/
theorem finish (h : c.Jobs loads) (hl : loads[t]? = some l) (hi : l.block? = some i)
    (hb : c.blocks[i]? = some b) {b' : CacheBlock} (hptr : b'.ramPtr = b.ramPtr) :
    (c.setBlock i b').Jobs (loads.set t .away) := by
  have hdrop := h.dropLoad hl
  have hzero : c.pending (loads.set t .away) i = 0 := by
    have hset := @pending_set c loads t l hl .away i
    have honce := h.once i
    have hpos := @pending_pos_of_load c loads t i l hl hi
    have haway : (Load.away.block? == some i).toNat = 0 := rfl
    rw [hi, beq_self_eq_true, Bool.toNat_true] at hset
    omega
  refine ⟨hdrop.once, ?_, ?_⟩
  · intro j hj
    apply setBlock_inTransit hb (hdrop.transit j hj)
    rintro rfl
    exact absurd hzero hj
  · intro j bj hmem hbj
    rcases setBlock_cases hb hbj with ⟨rfl, rfl⟩ | ⟨-, hbj⟩
    · rw [hptr]
      exact hdrop.empty i b hmem hb
    · exact hdrop.empty j bj hmem hbj

/-- A new block has no job. -/
theorem register (h : c.Jobs loads) (b : CacheBlock) (hnone : b.ramPtr = none) :
    Jobs { c with blocks := c.blocks ++ [b] } loads := by
  refine ⟨h.once, ?_, ?_⟩
  · intro j hj
    obtain ⟨bj, hbj, hin⟩ := h.transit j hj
    obtain ⟨hlt, -⟩ := List.getElem?_eq_some_iff.mp hbj
    exact ⟨bj, (List.getElem?_append_left hlt).trans hbj, hin⟩
  · intro j bj hmem hbj
    rcases getElem?_append_cases hbj with hbj | ⟨k, -, hk⟩
    · exact h.empty j bj hmem hbj
    · have hbj : bj = b := by simpa using List.mem_of_getElem? hk
      rw [hbj, hnone]

end Jobs

end Cache

theorem cache_getElem? {e : StreamEngine} {i : Nat} {b : StreamBlock}
    (hb : e.blocks[i]? = some b) : e.cache.blocks[i]? = some b.cached := by
  unfold StreamEngine.cache
  rw [List.getElem?_map, hb]
  rfl

theorem unpin_ramPtr (b : StreamBlock) : b.unpin.ramPtr = b.ramPtr := by
  unfold StreamBlock.unpin
  split
  · rfl
  · rfl

theorem pin_status_of_inTransit {b : StreamBlock} (h : b.status = .inTransit) :
    b.pin.status = .inTransit := by
  simp [StreamBlock.pin, h]

theorem unpin_status_of_inTransit {b : StreamBlock} (h : b.status = .inTransit) :
    b.unpin.status = .inTransit := by
  unfold StreamBlock.unpin
  split
  · simp [h]
  · exact h

theorem readData_eq (b : StreamBlock) (ok : Bool) :
    ∃ filled, b.readData ok = { b with filled := filled } := by
  unfold StreamBlock.readData
  split
  · exact ⟨ok, rfl⟩
  · exact ⟨b.filled, rfl⟩

theorem status_of_evictable {b : StreamBlock} (h : b.evictable = true) : b.status = .resident := by
  simp only [StreamBlock.evictable, decide_eq_true_eq] at h
  exact h.1

theorem JobAt.Allocates.load {j : JobAt} {e : StreamEngine} {b : StreamBlock}
    (hj : j.Allocates e b) (i : Nat) : (ThreadAt.running i j).load = .empty i := by
  rcases hj with ⟨rfl, -⟩ | rfl
  · rfl
  · rfl

/-- A worker in front of the allocation finds no buffer. -/
theorem Cache.Jobs.empty_of_allocates {c : Cache} {loads : List Load} (h : c.Jobs loads)
    {i t : Nat} {j : JobAt} {e : StreamEngine} {b : StreamBlock}
    (hb : c.blocks[i]? = some b.cached) (hl : loads[t]? = some (ThreadAt.running i j).load)
    (hj : j.Allocates e b) : b.cached.ramPtr = none := by
  rw [hj.load] at hl
  exact h.empty i b.cached (List.mem_of_getElem? hl) hb

/-- Every turn keeps the jobs. -/
theorem Turn.jobs {e : StreamEngine} {env : StreamEnv} {p p' : ThreadAt} {c' : Cache}
    (h : Turn e env p c' p') {loads : List Load} {t : Nat} (hjobs : e.cache.Jobs loads)
    (hl : loads[t]? = some p.load) : c'.Jobs (loads.set t p'.load) := by
  cases h with
  | rest hload =>
      rw [hload, Table.set_self hl]
      exact hjobs
  | @register d p' hp hload =>
      have haway : p.load = .away := by rw [hp]; rfl
      rw [hload, ← haway, Table.set_self hl]
      exact hjobs.register _ rfl
  | pin hb hload hload' =>
      rw [hload', ← hload, Table.set_self hl]
      exact hjobs.setBlock (cache_getElem? hb) _ pin_status_of_inTransit id
  | unpin hb hload hload' =>
      rw [hload', ← hload, Table.set_self hl]
      exact hjobs.setBlock (cache_getElem? hb) _ unpin_status_of_inTransit
        (fun hnone => (unpin_ramPtr _).trans hnone)
  | prefetch hb hp hstatus =>
      have haway : p.load = .away := by rw [hp]; rfl
      rw [haway] at hl
      exact hjobs.prefetch (cache_getElem? hb) hstatus hl
  | refuse hp hpool hload =>
      rw [hload]
      exact hjobs.dropLoad hl
  | accept hp hload =>
      rw [hp] at hl
      rw [hload]
      exact hjobs.accept hl
  | take hp hqueue =>
      rw [hp] at hl
      exact hjobs.take hl hqueue
  | find hb hload hfound =>
      rcases hfound with ⟨hnone, hload'⟩ | ⟨-, hload'⟩
      · rw [hload']
        apply hjobs.setLoad hl (by rw [hload]; rfl)
        intro j bj hj hbj
        cases hj
        rw [cache_getElem? hb, Option.some.injEq] at hbj
        rw [← hbj]
        exact hnone
      · rw [hload']
        exact hjobs.setLoad hl (by rw [hload]; rfl) (by simp)
  | @deny i j b hb hp hj hnone =>
      rw [hp, hj.load] at hl
      exact hjobs.alloc hl (cache_getElem? hb) _ rfl
  | @alloc i j b ptr hb hp hj hptr =>
      rw [hp, hj.load] at hl
      have halloc := hjobs.alloc hl (cache_getElem? hb)
        { b.cached with ramPtr := some ptr, filled := false } rfl
      exact ⟨halloc.once, halloc.transit, halloc.empty⟩
  | @read i b hb hp =>
      obtain ⟨filled, hread⟩ := readData_eq b env.readOk
      rw [hp] at hl
      rw [hread]
      have hblock := hjobs.setBlock (cache_getElem? hb) { b.cached with filled := filled } id id
      exact hblock.setLoad hl rfl (by simp [ThreadAt.load, JobAt.load])
  | finish hb hp =>
      rw [hp] at hl
      exact hjobs.finish hl rfl (cache_getElem? hb) rfl
  | @evict i b p' hb hp hevict hload =>
      have haway : p.load = .away := by rw [hp]; rfl
      rw [hload, ← haway, Table.set_self hl]
      have hblock := hjobs.setBlock (cache_getElem? hb) b.evicted.cached
        (fun hin => absurd (hin.symm.trans (status_of_evictable hevict)) (by decide)) (fun _ => rfl)
      exact ⟨hblock.once, hblock.transit, hblock.empty⟩
  | @evictLru i b p' hb hevict hload =>
      rw [hload, Table.set_self hl]
      have hblock := hjobs.setBlock (cache_getElem? hb) b.evicted.cached
        (fun hin => absurd (hin.symm.trans (status_of_evictable hevict)) (by decide)) (fun _ => rfl)
      exact ⟨hblock.once, hblock.transit, hblock.empty⟩

section Start

variable (ramCapacity : Nat) (io : Option IoPoolSize) (heap : SysHeap) (numCallers : Nat)

theorem create_loads : ∀ l ∈ (StreamState.create ramCapacity io heap numCallers).loads,
    l = .away := by
  intro l hl
  obtain ⟨p, hp, rfl⟩ := List.mem_map.mp hl
  rcases List.mem_append.mp hp with hp | hp
  · rw [List.eq_of_mem_replicate hp]
    rfl
  · rw [List.eq_of_mem_replicate hp]
    rfl

theorem create_pending (i : Nat) :
    (StreamState.create ramCapacity io heap numCallers).engine.cache.pending
      (StreamState.create ramCapacity io heap numCallers).loads i = 0 := by
  have hloads : (StreamState.create ramCapacity io heap numCallers).loads.countP
      (·.block? == some i) = 0 := by
    apply List.countP_eq_zero.mpr
    intro l hl
    rw [create_loads ramCapacity io heap numCallers l hl]
    simp [Load.block?]
  have hqueue : (StreamState.create ramCapacity io heap numCallers).engine.cache.queue = [] := by
    cases io with
    | none => rfl
    | some size => rfl
  unfold Cache.pending
  rw [hloads, hqueue]
  rfl

theorem create_jobs : (StreamState.create ramCapacity io heap numCallers).engine.cache.Jobs
    (StreamState.create ramCapacity io heap numCallers).loads := by
  have hzero := create_pending ramCapacity io heap numCallers
  refine ⟨fun i => by rw [hzero]; decide, fun i hi => absurd (hzero i) hi, ?_⟩
  intro i b _ hb
  cases hb

end Start

/-- The jobs are kept over every run. -/
theorem StreamState.after_jobs (ramCapacity : Nat) (io : Option IoPoolSize) (heap : SysHeap)
    (numCallers : Nat) (run : List StreamAction) :
    (StreamState.after ramCapacity io heap numCallers run).engine.cache.Jobs
      (StreamState.after ramCapacity io heap numCallers run).loads := by
  apply @StreamState.after_of_turn Cache.Jobs fun _ _ _ => true
  · exact create_jobs ramCapacity io heap numCallers
  · intro e env p c' p' loads t hjobs hl _ hturn
    exact hturn.jobs hjobs hl
  · exact moveMeets_true _ run

/-- A property that every turn under a condition keeps, as long as the jobs are kept too,
holds after every run whose moves all meet the condition. -/
theorem StreamState.after_of_jobs {P : Cache → List Load → Prop}
    {f : StreamEngine → StreamEnv → ThreadAt → Bool} {ramCapacity : Nat} {io : Option IoPoolSize}
    {heap : SysHeap} {numCallers : Nat}
    (hinit : P (StreamState.create ramCapacity io heap numCallers).engine.cache
      (StreamState.create ramCapacity io heap numCallers).loads)
    (hturn : ∀ (e : StreamEngine) (env : StreamEnv) (p : ThreadAt) (c' : Cache) (p' : ThreadAt)
      (loads : List Load) (t : Nat), e.cache.Jobs loads → P e.cache loads →
      loads[t]? = some p.load → f e env p = true → Turn e env p c' p' →
      P c' (loads.set t p'.load))
    {run : List StreamAction}
    (hrun : Runs.Along streamStep (MoveMeets f) (.create ramCapacity io heap numCallers) run) :
    P (StreamState.after ramCapacity io heap numCallers run).engine.cache
      (StreamState.after ramCapacity io heap numCallers run).loads := by
  have hboth := @StreamState.after_of_turn (fun c loads => c.Jobs loads ∧ P c loads) f ramCapacity
    io heap numCallers ⟨create_jobs ramCapacity io heap numCallers, hinit⟩
    (fun e env p c' p' loads t hs hl hf h =>
      ⟨h.jobs hs.1 hl, hturn e env p c' p' loads t hs.1 hs.2 hl hf h⟩) run hrun
  exact hboth.2

/-- Every block in transit has a job. -/
def Cache.Waited (c : Cache) (loads : List Load) : Prop :=
  ∀ i b, c.blocks[i]? = some b → b.status = .inTransit → c.pending loads i ≠ 0

namespace Cache.Waited

variable {c : Cache} {loads : List Load} {t i : Nat} {l : Load} {b : CacheBlock}

/-- A block changes, and was in transit if it is now. -/
theorem setBlock (h : c.Waited loads) (hb : c.blocks[i]? = some b) (b' : CacheBlock)
    (hstatus : b'.status = .inTransit → b.status = .inTransit) :
    (c.setBlock i b').Waited loads := by
  intro j bj hbj hin
  rcases setBlock_cases hb hbj with ⟨rfl, rfl⟩ | ⟨-, hbj⟩
  · exact h i b hb (hstatus hin)
  · exact h j bj hbj hin

/-- A thread goes on with the load it carries. -/
theorem setLoad (h : c.Waited loads) (hl : loads[t]? = some l) {l' : Load}
    (hblock : l'.block? = l.block?) : c.Waited (loads.set t l') := by
  intro j bj hbj hin
  have hset := @pending_set c loads t l hl l' j
  have hj := h j bj hbj hin
  rw [hblock] at hset
  omega

/-- The loads of the other blocks stay, and the block itself is not in transit or has its
load. -/
theorem moveLoad (h : c.Waited loads) (hl : loads[t]? = some l) {l' : Load}
    (hb : c.blocks[i]? = some b) (b' : CacheBlock)
    (hother : ∀ j, i ≠ j → (l'.block? == some j) = (l.block? == some j))
    (hself : b'.status = .inTransit → l'.block? = some i) :
    (c.setBlock i b').Waited (loads.set t l') := by
  intro j bj hbj hin
  rcases setBlock_cases hb hbj with ⟨rfl, rfl⟩ | ⟨hij, hbj⟩
  · apply pending_pos_of_load _ (hself hin) (t := t)
    rw [Table.getElem?_set_of hl, if_pos rfl]
  · have hset := @pending_set c loads t l hl l' j
    have hj := h j bj hbj hin
    rw [hother j hij] at hset
    change c.pending (loads.set t l') j ≠ 0
    omega

end Cache.Waited

theorem inTransit_of_pin {b : StreamBlock} (h : b.pin.status = .inTransit) :
    b.status = .inTransit := by
  by_cases hres : b.status = .resident
  · simp [StreamBlock.pin, hres] at h
  · simpa [StreamBlock.pin, hres] using h

theorem inTransit_of_unpin {b : StreamBlock} (h : b.unpin.status = .inTransit) :
    b.status = .inTransit := by
  unfold StreamBlock.unpin at h
  split at h
  · dsimp only at h
    split at h
    · cases h
    · exact h
  · exact h

/-- A move that leaves no block waiting: a prefetch that submits its job meets a pool that
takes jobs, and a block is not registered as in transit. -/
def readSubmitted (e : StreamEngine) (_ : StreamEnv) : ThreadAt → Bool
  | .caller (.submitting _ _) => !e.refuses
  | .caller (.registering d) => d.initialStatus != .inTransit
  | _ => true

/-- Such moves keep that blocks in transit are waited for. -/
theorem Turn.waited {e : StreamEngine} {env : StreamEnv} {p p' : ThreadAt} {c' : Cache}
    (h : Turn e env p c' p') {loads : List Load} {t : Nat} (hwaited : e.cache.Waited loads)
    (hl : loads[t]? = some p.load)
    (hsubmit : readSubmitted e env p = true) : c'.Waited (loads.set t p'.load) := by
  cases h with
  | rest hload =>
      rw [hload, Table.set_self hl]
      exact hwaited
  | @register d p' hp hload =>
      have haway : p.load = .away := by rw [hp]; rfl
      rw [hload, ← haway, Table.set_self hl]
      intro j bj hbj hin
      rcases getElem?_append_cases hbj with hbj | ⟨k, -, hk⟩
      · exact hwaited j bj hbj hin
      · have hbj : bj = (StreamBlock.ofDesc d).cached := by simpa using List.mem_of_getElem? hk
        rw [hp] at hsubmit
        rw [hbj] at hin
        simp [readSubmitted, show d.initialStatus = .inTransit from hin] at hsubmit
  | pin hb hload hload' =>
      rw [hload', ← hload, Table.set_self hl]
      exact hwaited.setBlock (cache_getElem? hb) _ inTransit_of_pin
  | unpin hb hload hload' =>
      rw [hload', ← hload, Table.set_self hl]
      exact hwaited.setBlock (cache_getElem? hb) _ inTransit_of_unpin
  | prefetch hb hp hstatus =>
      rw [hp] at hl
      apply hwaited.moveLoad hl (cache_getElem? hb)
      · intro j hij
        simp [ThreadAt.load, Load.block?, hij]
      · exact fun _ => rfl
  | refuse hp hpool hload =>
      rw [hp] at hsubmit
      simp [readSubmitted, hpool] at hsubmit
  | accept hp hload =>
      rw [hp] at hl
      rw [hload]
      intro j bj hbj hin
      have hj := hwaited j bj hbj hin
      have hset := @Cache.pending_set e.cache loads t _ hl .away j
      rw [Cache.pending_append]
      exact fun hzero => hj (hset.symm.trans hzero)
  | @take i rest hp hqueue =>
      rw [hp] at hl
      intro j bj hbj hin
      have hj := hwaited j bj hbj hin
      have hset := @Cache.pending_set { e.cache with queue := rest } loads t _ hl (.fetched i) j
      have htail := @Cache.pending_tail e.cache loads j i rest hqueue
      exact fun hzero => hj (htail.symm.trans (hset.symm.trans hzero))
  | find hb hload hfound =>
      apply hwaited.setLoad hl
      rcases hfound with ⟨-, hload'⟩ | ⟨-, hload'⟩
      · rw [hload, hload']
        rfl
      · rw [hload, hload']
        rfl
  | @deny i j b hb hp hj hnone =>
      have hblock := hwaited.setBlock (cache_getElem? hb)
        { b.cached with ramPtr := none, filled := false } id
      exact hblock.setLoad hl (by rw [hp, hj.load]; rfl)
  | @alloc i j b ptr hb hp hj hptr =>
      have hblock := hwaited.setBlock (cache_getElem? hb)
        { b.cached with ramPtr := some ptr, filled := false } id
      exact hblock.setLoad hl (by rw [hp, hj.load]; rfl)
  | @read i b hb hp =>
      obtain ⟨filled, hread⟩ := readData_eq b env.readOk
      rw [hp] at hl
      rw [hread]
      have hblock := hwaited.setBlock (cache_getElem? hb) { b.cached with filled := filled } id
      exact hblock.setLoad hl rfl
  | @finish i b hb hp =>
      rw [hp] at hl
      apply hwaited.moveLoad hl (cache_getElem? hb)
      · intro j hij
        simp [ThreadAt.load, JobAt.load, Load.block?, hij]
      · simp
  | @evict i b p' hb hp hevict hload =>
      have haway : p.load = .away := by rw [hp]; rfl
      rw [hload, ← haway, Table.set_self hl]
      exact hwaited.setBlock (cache_getElem? hb) b.evicted.cached (by simp [StreamBlock.evicted,
        StreamBlock.cached])
  | @evictLru i b p' hb hevict hload =>
      rw [hload, Table.set_self hl]
      exact hwaited.setBlock (cache_getElem? hb) b.evicted.cached (by simp [StreamBlock.evicted,
        StreamBlock.cached])

/-- A block in transit has exactly one read job, queued in the pool, run by one of its
workers, or about to be handed over by the prefetch that holds the block's mutex. -/
def NoLostRead (s : StreamState) : Prop :=
  ∀ i b, s.engine.blocks[i]? = some b → b.status = .inTransit →
    s.engine.cache.pending s.loads i = 1

/-- For every budget, every I/O pool or none, every number of callers and every run whose
submissions all meet a pool that takes jobs: no read is lost in the state reached. -/
theorem no_lost_read_of_submitted (ramCapacity : Nat) (io : Option IoPoolSize) (heap : SysHeap)
    (numCallers : Nat) {run : List StreamAction}
    (hrun : Runs.Along streamStep (MoveMeets readSubmitted)
      (.create ramCapacity io heap numCallers) run) :
    NoLostRead (.after ramCapacity io heap numCallers run) := by
  have hwaited : (StreamState.after ramCapacity io heap numCallers run).engine.cache.Waited
      (StreamState.after ramCapacity io heap numCallers run).loads := by
    apply @StreamState.after_of_turn Cache.Waited readSubmitted
    · intro i b hb
      cases hb
    · intro e env p c' p' loads t hwaited hl hsubmit hturn
      exact hturn.waited hwaited hl hsubmit
    · exact hrun
  have hjobs := StreamState.after_jobs ramCapacity io heap numCallers run
  intro i b hb hin
  have hpos := hwaited i b.cached (cache_getElem? hb) hin
  have honce := hjobs.once i
  omega

theorem no_lost_read_of_submitted_prefetch :
    Runs.Along streamStep (MoveMeets readSubmitted) (.create 100 (some ⟨1, 1⟩) (.fresh false) 1)
        (prefetchRun .ram) ∧
      NoLostRead (.after 100 (some ⟨1, 1⟩) (.fresh false) 1 (prefetchRun .ram)) := by
  have hrun : Runs.Along streamStep (MoveMeets readSubmitted)
      (.create 100 (some ⟨1, 1⟩) (.fresh false) 1) (prefetchRun .ram) := by decide +kernel
  exact ⟨hrun, no_lost_read_of_submitted 100 (some ⟨1, 1⟩) (.fresh false) 1 hrun⟩

/-- The engine of a session has no I/O pool: a prefetch puts the block in transit, reports
success, and there is no job. -/
theorem no_lost_read_fails_without_pool :
    ∃ b, (StreamState.after 4294967296 none (.fresh false) 1
        (prefetchRun .vram)).engine.blocks[0]? = some b ∧ b.status = .inTransit ∧
      (StreamState.after 4294967296 none (.fresh false) 1 (prefetchRun .vram)).engine.cache.pending
        (StreamState.after 4294967296 none (.fresh false) 1 (prefetchRun .vram)).loads 0 = 0 ∧
      ¬ NoLostRead (.after 4294967296 none (.fresh false) 1 (prefetchRun .vram)) := by
  have hpending : (StreamState.after 4294967296 none (.fresh false) 1
      (prefetchRun .vram)).engine.cache.pending
      (StreamState.after 4294967296 none (.fresh false) 1 (prefetchRun .vram)).loads 0 = 0 := by
    decide +kernel
  refine ⟨_, rfl, rfl, hpending, ?_⟩
  intro h
  have hone := h 0 _ rfl rfl
  rw [hpending] at hone
  exact absurd hone (by decide)

end Hummingbird
