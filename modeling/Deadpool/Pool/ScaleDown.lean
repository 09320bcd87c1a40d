import Deadpool.Pool.Scaling

/-!
# Waiting callers and the minimum of the pool

Two properties that the decisions of `get_process` and `done_with_process` are there for, each with the
race that breaks it.

A caller that decides not to add a worker saw one idle.  That worker may be taken, and the takers may
retire theirs when they are done, or `clear_workers` may take it: then nobody supplies a worker any more.

A caller that is done counts the busy workers, then the idle ones.  A worker put back between the two
counts is counted twice, and the caller may then retire its own worker although the pool is not above
`min_workers`.

Principal results: `waiting_callers_supplied`, `scale_down_keeps_min_workers`.
-/

set_option autoImplicit false

namespace Deadpool.Pool.Scaling

/-! ## A caller that waits -/

/-- Every job ends cleanly: its worker is alive and sound when it is handed back. -/
def Clean : Label → Bool
  | .act _ (.decide _ alive ok _) => alive && ok
  | .act _ .rssFails => false
  | _ => true

/-- The last worker of the pool is retired or cleared only while no caller waits for one. -/
def LastKept (s : State) : Label → Bool
  | .act _ .retire | .clear => !s.callers.contains .waiting || decide (2 ≤ s.supply)
  | _ => true

/-- A caller waits on an empty queue, and no other caller holds a worker or is about to add one. -/
def State.Starved (s : State) (i : Nat) : Prop :=
  s.callers[i]? = some .waiting ∧ s.idle = [] ∧
    ∀ j pc, j ≠ i → s.callers[j]? = some pc → pc.worker = none ∧ pc.adding = false

/-- What a caller needs to know about its count of the busy workers, and that a waiting caller finds a
supply. -/
structure Supplied (cfg : PoolConfig) (s : State) : Prop where
  read : ∀ b, Pc.readBusy b ∈ s.callers → b < cfg.poolSize
  waiting : Pc.waiting ∈ s.callers → 1 ≤ s.supply

section Supply

variable {cfg : PoolConfig} {s t : State} {pc pc' : Pc} {a : Act} {i : Nat}

/-- Only retiring takes from the supply. -/
theorem Move.supply_ge (hm : Move cfg s pc a t pc') (hretire : a ≠ .retire) (hrss : a ≠ .rssFails) :
    s.idle.length + (if pc.supplies then 1 else 0) ≤
      t.idle.length + (if pc'.supplies then 1 else 0) := by
  cases hm with
  | take v rest hi => simp [Pc.supplies, Pc.worker, Pc.adding, hi]
  | retire v => exact absurd rfl hretire
  | rssFails v n b q => exact absurd rfl hrss
  | _ => simp [Pc.supplies, Pc.worker, Pc.adding]

theorem supply_set (pc' : Pc) (hi : s.callers[i]? = some pc) (hc : t.callers = s.callers) :
    (t.set i pc').supply + s.idle.length + (if pc.supplies then 1 else 0) =
      s.supply + t.idle.length + (if pc'.supplies then 1 else 0) := by
  have hset := countP_set_add Pc.supplies pc' hi
  simp only [State.supply, State.set, hc]
  omega

/-- While a caller that holds nothing is in the pool, fewer than `pool_size` workers are busy. -/
theorem Inv.busy_lt (h : Inv cfg s) (hi : s.callers[i]? = some pc) (hlive : pc.live = true)
    (hbusy : pc.busy = none) : s.busy.length < cfg.poolSize := by
  have hlt : s.callers.countP (fun pc => pc.busy.isSome) < s.callers.countP Pc.live := by
    refine countP_lt_countP (fun q _ hq => ?_) (List.mem_of_getElem? hi) (by simp [hbusy]) hlive
    cases q <;> first | rfl | cases hq
  have := h.busy
  have := h.live
  omega

theorem mem_set {q : Pc} (hc : t.callers = s.callers)
    (hq : q ∈ (t.set i pc').callers) : q = pc' ∨ q ∈ s.callers := by
  rw [State.set, hc] at hq
  exact (List.mem_or_eq_of_mem_set hq).symm

/-- A caller that begins to wait saw an idle worker, or has just put one on the queue. -/
theorem Move.begins_waiting (hm : Move cfg s pc a t .waiting)
    (hread : ∀ b, pc = .readBusy b → b < cfg.poolSize) : 1 ≤ t.idle.length := by
  cases hm with
  | wait b hg =>
    have hb := hread b rfl
    have hne : s.idle.length ≠ 0 := by
      intro hz
      simp [growsPool, hz] at hg
      omega
    omega
  | putGrown w => simp

/-- A move keeps a supply for those who wait. -/
theorem Supplied.move (h : Supplied cfg s) (hinv : Inv cfg s) (hi : s.callers[i]? = some pc)
    (hm : Move cfg s pc a t pc') (hclean : Clean (.act i a) = true)
    (hlast : LastKept s (.act i a) = true) : Supplied cfg (t.set i pc') := by
  have hcallers := hm.callers
  have hsupply := supply_set pc' hi hcallers
  constructor
  · intro b hb
    rcases mem_set hcallers hb with rfl | hold
    · cases hm
      exact hinv.busy_lt hi rfl rfl
    · exact h.read b hold
  · intro hw
    rcases mem_set hcallers hw with rfl | hold
    · have hidle := hm.begins_waiting fun b hb => h.read b (hb ▸ List.mem_of_getElem? hi)
      unfold State.supply
      exact Nat.le_trans hidle (Nat.le_add_right _ _)
    · by_cases hret : a = .retire
      · subst hret
        -- the retired worker was not the last one, since somebody waits
        cases hm with
        | retire w =>
          have htwo : 2 ≤ s.supply := by simpa [LastKept, hold] using hlast
          simp [Pc.supplies, Pc.worker, Pc.adding] at hsupply
          omega
      · have hge := hm.supply_ge hret (by rintro rfl; cases hclean)
        have := h.waiting hold
        omega

theorem supplied_step {s' : State} {l : Label} (h : Supplied cfg s) (hinv : Inv cfg s)
    (hclean : Clean l = true) (hlast : LastKept s l = true) (hs : step cfg s l = some s') :
    Supplied cfg s' := by
  rcases step_cases hs with ⟨-, -, rfl⟩ | ⟨i, a, pc, pc', t, rfl, hi, hm, rfl⟩ |
    ⟨rfl, w, rest, hi, rfl⟩
  · refine ⟨fun b hb => ?_, fun hw => ?_⟩
    · exact h.read b (by simpa using hb)
    · have := h.waiting (by simpa using hw)
      simpa [State.supply, Pc.supplies, Pc.worker, Pc.adding] using this
  · exact h.move hinv hi hm hclean hlast
  · refine ⟨h.read, fun hw => ?_⟩
    have htwo : 2 ≤ s.supply := by
      have hmem : Pc.waiting ∈ s.callers := hw
      simpa [LastKept, hmem] using hlast
    unfold State.supply at htwo ⊢
    rw [hi, List.length_cons] at htwo
    dsimp only
    omega

theorem supplied_run (h : (system cfg).Reach (fun s l => Clean l = true ∧ LastKept s l = true) s) :
    Supplied cfg s := by
  refine h.invariant (I := Supplied cfg) ⟨by simp [system, init], by simp [system, init]⟩ ?_
  intro s l s' hr hi hc hs
  exact supplied_step hi (inv_reachable hr.reachable) hc.1 hc.2 hs

end Supply

/-- **A waiting caller is supplied.**  For every `min_workers` and every run in which jobs end cleanly
and the last worker is retired or cleared only while no caller waits: a caller blocked on an empty idle
queue always has another caller that holds a worker or is about to add one. -/
theorem waiting_callers_supplied (cfg : PoolConfig) {s : State}
    (h : (system cfg).Reach (fun s l => Clean l = true ∧ LastKept s l = true) s) (i : Nat) :
    ¬ s.Starved i := by
  rintro ⟨hi, hidle, hothers⟩
  have hsupply := (supplied_run h).waiting (List.mem_of_getElem? hi)
  unfold State.supply at hsupply
  rw [hidle, List.length_nil, Nat.zero_add] at hsupply
  obtain ⟨pc, hpc, hsup⟩ := List.countP_pos_iff.mp hsupply
  obtain ⟨j, hj⟩ := List.getElem?_of_mem hpc
  by_cases hji : j = i
  · subst hji
    rw [hi] at hj
    cases hj
    cases hsup
  · obtain ⟨hworker, hadding⟩ := hothers j pc hji hj
    simp [Pc.supplies, hworker, hadding] at hsup

/-- Two callers may run at once, and the pool may shrink to nothing. -/
def elastic : PoolConfig := ⟨2, 0, none, none⟩

/-- Caller `i` gets a worker, having seen an idle one. -/
def obtainIdle (i : Nat) : List Label :=
  [.enter, .act i .countBusy, .act i .countIdle, .act i .take, .act i .register, .act i .give]

/-- Caller `i` hands its worker back with an empty backlog, up to its decision. -/
def finishIdle (i : Nat) : List Label :=
  [.act i .leave, .act i .measure, .act i (.decide 0 true true 0)]

/-- One caller works, another waits for the second worker while the first one retires its own. -/
def suppliedRun : List Label :=
  obtainIdle 0 ++ [.enter, .act 1 .countBusy, .act 1 .countIdle] ++ finishIdle 0 ++ [.act 0 .retire]

theorem waiting_callers_supplied_suppliedRun :
    ∃ s, (system elastic).Reach (fun s l => Clean l = true ∧ LastKept s l = true) s ∧
      s.callers = [.ended, .waiting] ∧ s.idle = [1] ∧ ¬ s.Starved 1 := by
  have hview : (((system elastic).runWhile (fun s l => Clean l && LastKept s l)
      (system elastic).init suppliedRun).map fun s => (s.callers, s.idle)) =
        some ([.ended, .waiting], [1]) := by
    decide +kernel
  obtain ⟨s, hs, hview⟩ := Option.map_eq_some_iff.mp hview
  simp only [Prod.mk.injEq] at hview
  have hr := (Lts.System.Reach.of_runWhile .init _ hs).mono
    (D := fun s l => Clean l = true ∧ LastKept s l = true) fun s l hc => Bool.and_eq_true_iff.mp hc
  exact ⟨s, hr, hview.1, hview.2, waiting_callers_supplied elastic hr 1⟩

/-- A caller decides to wait for the idle worker, `clear_workers` takes it, and the other caller scales
the pool down to nothing. -/
def starvingRun : List Label :=
  obtainIdle 0 ++ [.enter, .act 1 .countBusy, .act 1 .countIdle, .clear] ++ finishIdle 0 ++
    [.act 0 .retire]

/-- **A caller can wait for a worker that nobody supplies**, with every job ending cleanly. -/
theorem starving_caller :
    ∃ s, (system elastic).Reach (fun _ l => Clean l = true) s ∧ s.Starved 1 := by
  have hview : (((system elastic).runWhile (fun _ l => Clean l) (system elastic).init
      starvingRun).map fun s => (s.callers, s.idle)) = some ([.ended, .waiting], []) := by
    decide +kernel
  obtain ⟨s, hs, hview⟩ := Option.map_eq_some_iff.mp hview
  simp only [Prod.mk.injEq] at hview
  refine ⟨s, Lts.System.Reach.of_runWhile .init _ hs, by rw [hview.1]; rfl, hview.2, ?_⟩
  intro j pc hj hpc
  rw [hview.1] at hpc
  match j, hj with
  | 0, _ => cases hpc; exact ⟨rfl, rfl⟩
  | 1, hj => exact absurd rfl hj
  | j + 2, _ => simp at hpc

/-! ## The minimum -/

/-- When the caller left `busy_workers`, while it has not decided about its worker. -/
def Pc.stamp : Pc → Option Nat
  | .left _ n _ | .measured _ n _ _ => some n
  | _ => none

def Pc.replacing? : Pc → Bool
  | .replacing _ => true
  | _ => false

def Pc.retiring? : Pc → Bool
  | .retiring _ => true
  | _ => false

/-- The worker of the caller, or the one it replaces, as an earlier count may have seen it. -/
def Pc.origin : Pc → Option Nat
  | .replacing old | .replaced old _ => some old
  | .grown _ => none
  | pc => pc.worker

/-- The caller will not take a worker from the pool: it holds or replaces one and has not decided to
retire it; an undecided caller counts only if `p` holds of its stamp. -/
def Pc.kept (p : Nat → Bool) (pc : Pc) : Bool :=
  (pc.worker.isSome || pc.replacing?) && !pc.retiring? && (pc.stamp.map p).getD true

/-- The caller counted the busy workers and not yet the idle ones, and saw worker `w` busy. -/
def Pc.countedBusy (w : Nat) : Pc → Bool
  | .left _ _ counted => counted.contains w
  | _ => false

/-- The races are not run: no worker is put back, or replaced by a new one, between the two counts of a
caller that has counted it as busy; no worker is scaled down while another one is being replaced; and
workers are lost neither to `clear_workers` nor to a process that is gone when its memory is read. -/
def CountsApart (s : State) : Label → Bool
  | .act i .requeue | .act i .putNew =>
    match (s.callers[i]?).bind Pc.origin with
    | none => true
    | some w => s.callers.all fun pc => !pc.countedBusy w
  | .act _ .retire => s.callers.all fun pc => !pc.replacing?
  | .act _ .rssFails | .clear => false
  | _ => true

/-- The caller keeps a worker that an earlier count saw busy. -/
def Pc.counts (n : Nat) (counted : List Nat) (pc : Pc) : Bool :=
  pc.kept (n < ·) && pc.origin.any counted.contains

/-- Idle workers and those that callers keep. -/
def State.keeps (s : State) (p : Nat → Bool) : Nat := s.idle.length + s.callers.countP (Pc.kept p)

/-- What an undecided caller has counted is there without it and without those that left before it, or
the pool has its minimum without them anyway. -/
def Counted (cfg : PoolConfig) (s : State) : Pc → Prop
  | .left _ n counted =>
    counted.length ≤ s.callers.countP (Pc.counts n counted) ∨ cfg.minWorkers ≤ s.keeps (n < ·)
  | .measured _ n b q => b + q ≤ s.keeps (n < ·) ∨ cfg.minWorkers ≤ s.keeps (n < ·)
  | .retiring _ => cfg.minWorkers ≤ s.keeps fun _ => true
  | _ => True

structure Sound (cfg : PoolConfig) (s : State) : Prop where
  counted : ∀ pc ∈ s.callers, Counted cfg s pc
  stamps : ∀ pc ∈ s.callers, ∀ n, pc.stamp = some n → n < s.leavers

section Minimum

variable {cfg : PoolConfig} {s t : State} {pc pc' : Pc} {a : Act} {i : Nat}

/-- A move leaves what is kept, unless it decides to retire a worker that was still counted. -/
theorem Move.keeps {p : Nat → Bool} (hm : Move cfg s pc a t pc') (hnew : p s.leavers = true)
    (hrss : a ≠ .rssFails)
    (hscale : pc'.retiring? = true → ∀ n, pc.stamp = some n → p n = false) :
    s.idle.length + (if pc.kept p then 1 else 0) ≤ t.idle.length + (if pc'.kept p then 1 else 0) := by
  cases hm with
  | take v rest hi => simp [Pc.kept, Pc.worker, Pc.replacing?, Pc.retiring?, Pc.stamp, hi]
  | rssFails v n b q => exact absurd rfl hrss
  | scaleDown v n b q backlog alive ok rss hmin =>
    have := hscale rfl n rfl
    simp [Pc.kept, Pc.stamp, this]
  | leave v given => simp [Pc.kept, Pc.worker, Pc.replacing?, Pc.retiring?, Pc.stamp, hnew]
  | measure v n counted => simp [Pc.kept, Pc.worker, Pc.replacing?, Pc.retiring?, Pc.stamp]
  | drop v n b q backlog alive ok rss =>
    simp [Pc.kept, Pc.worker, Pc.replacing?, Pc.retiring?, Pc.stamp]
    split <;> omega
  | keep v n b q backlog alive ok rss hr =>
    simp [Pc.kept, Pc.worker, Pc.replacing?, Pc.retiring?, Pc.stamp]
    split <;> omega
  | _ => simp [Pc.kept, Pc.worker, Pc.replacing?, Pc.retiring?, Pc.stamp]

theorem keeps_set {p : Nat → Bool} (pc' : Pc) (hi : s.callers[i]? = some pc)
    (hc : t.callers = s.callers) :
    (t.set i pc').keeps p + s.idle.length + (if pc.kept p then 1 else 0) =
      s.keeps p + t.idle.length + (if pc'.kept p then 1 else 0) := by
  have hset := countP_set_add (Pc.kept p) pc' hi
  simp only [State.keeps, State.set, hc]
  omega

/-- An undecided caller that counts nobody who left before it sees no more than one that does. -/
theorem keeps_mono {p q : Nat → Bool} (h : ∀ n, p n = true → q n = true) :
    s.keeps p ≤ s.keeps q := by
  refine Nat.add_le_add_left (List.countP_mono_left fun pc _ hpc => ?_) _
  simp only [Pc.kept, Bool.and_eq_true] at hpc ⊢
  refine ⟨hpc.1, ?_⟩
  cases hs : pc.stamp with
  | none => rfl
  | some n =>
    have := hpc.2
    rw [hs] at this
    exact h n this

/-- A decision to retire leaves the minimum, counted without the caller and those that left before. -/
theorem Sound.scaleDown {w n b q : Nat} {p : Nat → Bool} (h : Sound cfg s)
    (hi : s.callers[i]? = some (.measured w n b q)) (hmin : cfg.minWorkers < b + q + 1)
    (hp : ∀ x, n < x → p x = true) : cfg.minWorkers ≤ (s.set i (.retiring w)).keeps p := by
  have hcount := h.counted _ (List.mem_of_getElem? hi)
  have hmine : cfg.minWorkers ≤ s.keeps (n < ·) := by
    rcases hcount with hc | hc
    · omega
    · exact hc
  have hset := keeps_set (t := s) (p := (n < ·)) (.retiring w) hi rfl
  have hmono := keeps_mono (s := s.set i (.retiring w)) (p := (n < ·)) (q := p)
    (fun x hx => hp x (by simpa using hx))
  simp [Pc.kept, Pc.stamp, Pc.retiring?] at hset
  omega

/-- A step of a caller keeps what is counted, or the minimum is there anyway. -/
theorem Sound.keeps {p : Nat → Bool} (h : Sound cfg s) (hi : s.callers[i]? = some pc)
    (hm : Move cfg s pc a t pc') (hrss : a ≠ .rssFails) (hnew : p s.leavers = true)
    (hup : ∀ x y, p x = true → x < y → p y = true) :
    s.keeps p ≤ (t.set i pc').keeps p ∨ cfg.minWorkers ≤ (t.set i pc').keeps p := by
  have hset := keeps_set (p := p) pc' hi hm.callers
  by_cases hbad : pc'.retiring? = true ∧ ∃ n, pc.stamp = some n ∧ p n = true
  · obtain ⟨hret, n, hn, hpn⟩ := hbad
    refine .inr ?_
    cases hm with
    | scaleDown w k b q backlog alive ok rss hmin =>
      cases hn
      exact h.scaleDown hi hmin fun x hx => hup n x hpn hx
    | _ => cases hret
  · refine .inl ?_
    have hkeep := hm.keeps hnew hrss fun hret n hn => by
      by_contra hpn
      exact hbad ⟨hret, n, hn, by simpa using hpn⟩
    omega

/-- A counted worker stays counted until it is put on the queue or scaled down. -/
theorem Move.counts {n : Nat} (counted : List Nat) (hm : Move cfg s pc a t pc')
    (hlt : n < s.leavers) (hrss : a ≠ .rssFails)
    (hput : ∀ w, pc.origin = some w → a = .requeue ∨ a = .putNew → w ∉ counted)
    (hscale : pc'.retiring? = true → ∀ k, pc.stamp = some k → ¬ n < k)
    (h : pc.counts n counted = true) : pc'.counts n counted = true := by
  simp only [Pc.counts, Bool.and_eq_true] at h ⊢
  obtain ⟨hkept, horigin⟩ := h
  cases hm with
  | scaleDown w k b q backlog alive ok rss hmin =>
    have := hscale rfl k rfl
    simp [Pc.kept, Pc.stamp, this] at hkept
  | rssFails => exact absurd rfl hrss
  | requeue w =>
    have := hput w rfl (.inl rfl)
    simp [Pc.origin, Pc.worker, this] at horigin
  | putReplaced old w =>
    have := hput old rfl (.inr rfl)
    simp [Pc.origin, this] at horigin
  | leave w given =>
    refine ⟨?_, horigin⟩
    simp [Pc.kept, Pc.worker, Pc.replacing?, Pc.retiring?, Pc.stamp, hlt]
  | register w | give w | measure w k counted' | recreate old => exact ⟨hkept, horigin⟩
  | drop w k b q backlog alive ok rss | keep w k b q backlog alive ok rss hr => exact ⟨rfl, horigin⟩
  | putGrown w => cases horigin
  | _ => cases hkept

/-- A step of a caller keeps the workers that an earlier count saw busy, or the minimum is there. -/
theorem Sound.countedBusy {n v : Nat} {counted : List Nat} (h : Sound cfg s)
    (hi : s.callers[i]? = some pc) (hm : Move cfg s pc a t pc')
    (happart : CountsApart s (.act i a) = true) (hq : Pc.left v n counted ∈ s.callers) :
    s.callers.countP (Pc.counts n counted) ≤ (t.set i pc').callers.countP (Pc.counts n counted) ∨
      cfg.minWorkers ≤ (t.set i pc').keeps (n < ·) := by
  have hset := countP_set_add (Pc.counts n counted) pc' hi
  have hlt := h.stamps _ hq n rfl
  rw [show (t.set i pc').callers = s.callers.set i pc' by rw [State.set, hm.callers]]
  have hrss : a ≠ .rssFails := by
    rintro rfl
    cases happart
  -- a worker that is put on the queue was not among the counted ones
  have hput : ∀ w, pc.origin = some w → (a = .requeue ∨ a = .putNew) → w ∉ counted := by
    intro w hw ha hmem
    have hall : (s.callers.all fun pc => !pc.countedBusy w) = true := by
      rcases ha with rfl | rfl <;> simpa [CountsApart, hi, hw] using happart
    have := List.all_eq_true.mp hall _ hq
    simp [Pc.countedBusy, hmem] at this
  by_cases hbad : pc'.retiring? = true ∧ ∃ k, pc.stamp = some k ∧ n < k
  · obtain ⟨hret, k, hk, hnk⟩ := hbad
    refine .inr ?_
    cases hm with
    | scaleDown w m b q backlog alive ok rss hmin =>
      cases hk
      exact h.scaleDown hi hmin fun x hx => by simpa using Nat.lt_trans hnk hx
    | _ => cases hret
  · refine .inl ?_
    have hcounts := hm.counts counted hlt hrss hput
      fun hret k hk hnk => hbad ⟨hret, k, hk, hnk⟩
    by_cases hc : pc.counts n counted = true
    · rw [if_pos hc, if_pos (hcounts hc)] at hset
      omega
    · rw [if_neg hc] at hset
      omega

/-- A caller that leaves `busy_workers` has counted workers that other callers keep. -/
theorem Inv.leave {w : Nat} {given : Bool} (h : Inv cfg s) (hi : s.callers[i]? = some (.holding w given)) :
    (s.busy.erase w).length ≤
      (s.callers.set i (.left w s.leavers (s.busy.erase w))).countP
        (Pc.counts s.leavers (s.busy.erase w)) := by
  have hmem : w ∈ s.busy := by
    rw [← List.count_pos_iff, h.busyOf w]
    exact List.countP_pos_iff.mpr ⟨_, List.mem_of_getElem? hi, by simp [Pc.busy]⟩
  have hset := countP_set_add (fun pc : Pc => pc.busy.isSome) (.left w s.leavers (s.busy.erase w)) hi
  have hlen := h.busy
  have herase := List.length_erase_of_mem hmem
  have hmono : (s.callers.set i (.left w s.leavers (s.busy.erase w))).countP
        (fun pc => pc.busy.isSome) ≤
      (s.callers.set i (.left w s.leavers (s.busy.erase w))).countP
        (Pc.counts s.leavers (s.busy.erase w)) := by
    refine List.countP_mono_left fun q hq hbusy => ?_
    obtain ⟨j, hj⟩ := List.getElem?_of_mem hq
    rw [List.getElem?_set] at hj
    split at hj
    · split at hj
      · cases hj
        cases hbusy
      · cases hj
    · rename_i hne
      obtain ⟨v, hv⟩ := Option.isSome_iff_exists.mp hbusy
      -- another caller holds another worker, which was counted
      cases q with
      | holding u g =>
        cases hv
        have hvw : v ≠ w := by
          rintro rfl
          exact hne (h.held_once hi hj rfl rfl)
        have hvb : v ∈ s.busy := by
          rw [← List.count_pos_iff, h.busyOf v]
          exact List.countP_pos_iff.mpr ⟨_, List.mem_of_getElem? hj, by simp [Pc.busy]⟩
        have : v ∈ s.busy.erase w := (List.mem_erase_of_ne hvw).mpr hvb
        simp [Pc.counts, Pc.kept, Pc.worker, Pc.replacing?, Pc.retiring?, Pc.stamp, Pc.origin, this]
      | _ => cases hv
  have hone : (if (Pc.holding w given).busy.isSome then 1 else 0) = 1 := rfl
  have hzero : (if (Pc.left w s.leavers (s.busy.erase w)).busy.isSome then 1 else 0) = 0 := rfl
  rw [hone, hzero] at hset
  omega

/-- What other callers have counted survives a step. -/
theorem Sound.others {q : Pc} (h : Sound cfg s) (hi : s.callers[i]? = some pc)
    (hm : Move cfg s pc a t pc') (happart : CountsApart s (.act i a) = true) (hq : q ∈ s.callers) :
    Counted cfg (t.set i pc') q := by
  have hrss : a ≠ .rssFails := by
    rintro rfl
    cases happart
  have hold := h.counted q hq
  cases q with
  | left v n counted =>
    have hkeeps := h.keeps (p := (n < ·)) hi hm hrss (by simpa using h.stamps _ hq n rfl)
      (by simpa using fun x y hx hy => Nat.lt_trans hx hy)
    rcases hold with hc | hmin
    · rcases h.countedBusy hi hm happart hq with hle | hmin
      · exact .inl (Nat.le_trans hc hle)
      · exact .inr hmin
    · rcases hkeeps with hle | hmin'
      · exact .inr (Int.le_trans hmin (Int.ofNat_le.mpr hle))
      · exact .inr hmin'
  | measured v n b k =>
    have hkeeps := h.keeps (p := (n < ·)) hi hm hrss (by simpa using h.stamps _ hq n rfl)
      (by simpa using fun x y hx hy => Nat.lt_trans hx hy)
    rcases hkeeps with hle | hmin
    · rcases hold with hc | hmin
      · exact .inl (Nat.le_trans hc hle)
      · exact .inr (Int.le_trans hmin (Int.ofNat_le.mpr hle))
    · exact .inr hmin
  | retiring v =>
    rcases h.keeps (p := fun _ => true) hi hm hrss rfl (fun _ _ _ _ => rfl) with hle | hmin
    · exact Int.le_trans hold (Int.ofNat_le.mpr hle)
    · exact hmin
  | _ => trivial

/-- What the caller itself has counted after its step. -/
theorem Sound.own (h : Sound cfg s) (hinv : Inv cfg s) (hi : s.callers[i]? = some pc)
    (hm : Move cfg s pc a t pc') : Counted cfg (t.set i pc') pc' := by
  cases hm with
  | leave w given => exact .inl (hinv.leave hi)
  | measure w n counted =>
    have hset := keeps_set (t := s) (p := (n < ·)) (.measured w n counted.length s.idle.length)
      hi rfl
    have hsame : (Pc.left w n counted).kept (n < ·) =
      (Pc.measured w n counted.length s.idle.length).kept (n < ·) := rfl
    rw [hsame] at hset
    rcases h.counted _ (List.mem_of_getElem? hi) with hc | hmin
    · refine .inl ?_
      have hle : s.callers.countP (Pc.counts n counted) ≤ s.callers.countP (Pc.kept (n < ·)) :=
        List.countP_mono_left fun q _ hq => (Bool.and_eq_true_iff.mp hq).1
      have hkeeps : s.keeps (n < ·) = s.idle.length + s.callers.countP (Pc.kept (n < ·)) := rfl
      omega
    · refine .inr ?_
      omega
  | scaleDown w n b q backlog alive ok rss hmin => exact h.scaleDown hi hmin fun _ _ => rfl
  | _ => trivial

theorem Sound.move (h : Sound cfg s) (hinv : Inv cfg s) (hi : s.callers[i]? = some pc)
    (hm : Move cfg s pc a t pc') (happart : CountsApart s (.act i a) = true) :
    Sound cfg (t.set i pc') := by
  constructor
  · intro q hq
    rcases mem_set hm.callers hq with rfl | hold
    · exact h.own hinv hi hm
    · exact h.others hi hm happart hold
  · intro q hq n hn
    have hle : s.leavers ≤ t.leavers := by cases hm <;> simp
    rcases mem_set hm.callers hq with rfl | hold
    · cases hm with
      | leave w given =>
        cases hn
        exact Nat.lt_succ_self _
      | measure w k counted =>
        cases hn
        exact h.stamps _ (List.mem_of_getElem? hi) n rfl
      | _ => cases hn
    · exact Nat.lt_of_lt_of_le (h.stamps q hold n hn) hle

theorem sound_step {s' : State} {l : Label} (h : Sound cfg s) (hinv : Inv cfg s)
    (happart : CountsApart s l = true) (hs : step cfg s l = some s') : Sound cfg s' := by
  rcases step_cases hs with ⟨-, -, rfl⟩ | ⟨i, a, pc, pc', t, rfl, hi, hm, rfl⟩ | ⟨rfl, -⟩
  · have hkeeps : ∀ p, State.keeps { s with callers := s.callers ++ [.entered] } p = s.keeps p := by
      intro p
      simp [State.keeps, Pc.kept, Pc.worker, Pc.replacing?]
    refine ⟨fun q hq => ?_, fun q hq n hn => ?_⟩
    · rcases List.mem_append.mp hq with hq | hq
      · have hold := h.counted q hq
        cases q with
        | left v n counted =>
          refine hold.imp (fun hc => ?_) (fun hc => ?_)
          · simpa [Pc.counts, Pc.kept, Pc.worker, Pc.replacing?] using hc
          · rw [hkeeps]
            exact hc
        | measured v n b k => simpa only [Counted, hkeeps] using hold
        | retiring v => simpa only [Counted, hkeeps] using hold
        | _ => trivial
      · cases List.mem_singleton.mp hq
        trivial
    · rcases List.mem_append.mp hq with hq | hq
      · exact h.stamps q hq n hn
      · cases List.mem_singleton.mp hq
        cases hn
  · exact h.move hinv hi hm happart
  · cases happart

theorem sound_run (h : (system cfg).Reach (fun s l => CountsApart s l = true) s) : Sound cfg s := by
  refine h.invariant (I := Sound cfg) ⟨by simp [system, init], by simp [system, init]⟩ ?_
  intro s l s' hr hi hc hs
  exact sound_step hi (inv_reachable hr.reachable) hc hs

end Minimum

/-- **Scale-down keeps the minimum.**  In every run in which no worker is put back or replaced between
the two counts of a caller that has counted it as busy, no worker is scaled down while another one is
being replaced, and no worker is cleared or lost: whenever a caller retires its worker because the pool
has more than `min_workers`, at least `min_workers` workers are left that are idle or held. -/
theorem scale_down_keeps_min_workers (cfg : PoolConfig) {s s' : State} {i : Nat}
    (h : (system cfg).Reach (fun s l => CountsApart s l = true) s)
    (happart : CountsApart s (.act i .retire) = true) (hs : step cfg s (.act i .retire) = some s') :
    cfg.minWorkers ≤ s'.idle.length + s'.held := by
  have hsound := sound_run h
  rcases step_cases hs with ⟨hl, -⟩ | ⟨j, a, pc, pc', t, hl, hi, hm, rfl⟩ | ⟨hl, -⟩
  · cases hl
  · cases hl
    cases hm with
    | retire w =>
      have hmin := hsound.counted _ (List.mem_of_getElem? hi)
      have hset := countP_set_add (fun pc : Pc => pc.worker.isSome) .ended hi
      have hreplacing : ∀ pc ∈ s.callers, pc.replacing? = false := by
        intro pc hpc
        simpa using List.all_eq_true.mp happart pc hpc
      have hlt : s.callers.countP (Pc.kept fun _ => true) <
          s.callers.countP fun pc => pc.worker.isSome := by
        refine countP_lt_countP (fun q hq hkept => ?_) (List.mem_of_getElem? hi) rfl rfl
        simpa [Pc.kept, hreplacing q hq] using (Bool.and_eq_true_iff.mp (Bool.and_eq_true_iff.mp hkept).1).1
      have hkeeps : s.keeps (fun _ => true) =
        s.idle.length + s.callers.countP (Pc.kept fun _ => true) := rfl
      have hone : (if (Pc.retiring w).worker.isSome then 1 else 0) = 1 := rfl
      have hzero : (if Pc.ended.worker.isSome then 1 else 0) = 0 := rfl
      rw [hone, hzero] at hset
      change cfg.minWorkers ≤ s.idle.length +
        ((s.callers.set i .ended).countP fun pc => pc.worker.isSome : Nat)
      have hm : cfg.minWorkers ≤ s.keeps fun _ => true := hmin
      omega
  · cases hl

/-- Two workers, of which at least one is to be kept. -/
def keepOne : PoolConfig := ⟨2, 1, none, none⟩

/-- Two callers work and finish one after the other, up to the retirement of the first worker. -/
def apartRun : List Label :=
  obtainIdle 0 ++ obtainIdle 1 ++ finishIdle 0

theorem scale_down_keeps_min_workers_apartRun :
    ∃ s s', (system keepOne).Reach (fun s l => CountsApart s l = true) s ∧
      step keepOne s (.act 0 .retire) = some s' ∧ s'.retired = [0] ∧
      keepOne.minWorkers ≤ s'.idle.length + s'.held := by
  have hview : (((system keepOne).runWhile CountsApart (system keepOne).init apartRun).bind
      fun s => if CountsApart s (.act 0 .retire) then
        (step keepOne s (.act 0 .retire)).map fun s' => s'.retired else none) = some [0] := by
    decide +kernel
  obtain ⟨s, hs, hview⟩ := Option.bind_eq_some_iff.mp hview
  split at hview
  · rename_i happart
    obtain ⟨s', hs', hret⟩ := Option.map_eq_some_iff.mp hview
    have hr := Lts.System.Reach.of_runWhile .init _ hs
    exact ⟨s, s', hr, hs', hret, scale_down_keeps_min_workers keepOne hr happart hs'⟩
  · cases hview

/-- Two workers that are both to be kept. -/
def keepBoth : PoolConfig := ⟨2, 2, none, none⟩

/-- The first caller counts the second one as busy; the second puts its worker back; the first counts
that worker again as idle. -/
def countedTwice : List Label :=
  obtainIdle 0 ++ obtainIdle 1 ++ [.act 0 .leave] ++ finishIdle 1 ++
    [.act 1 .requeue, .act 0 .measure, .act 0 (.decide 0 true true 0), .act 0 .retire]

/-- **A worker counted twice takes the pool below its minimum.** -/
theorem counted_twice_below_min_workers :
    ∃ s, (system keepBoth).Reachable s ∧ s.retired = [0] ∧
      ¬ keepBoth.minWorkers ≤ s.idle.length + s.held := by
  have hview : (((system keepBoth).run (system keepBoth).init countedTwice).map
      fun s => (s.retired, s.idle.length, s.held)) = some ([0], 1, 0) := by
    decide +kernel
  obtain ⟨s, hs, hview⟩ := Option.map_eq_some_iff.mp hview
  simp only [Prod.mk.injEq] at hview
  refine ⟨s, Lts.System.reachable_of_run hs, hview.1, ?_⟩
  rw [hview.2.1, hview.2.2]
  decide

end Deadpool.Pool.Scaling
