import CodeCub.Pico.Delivery
import Mathlib.Data.List.Perm.Basic
import Mathlib.Data.List.Nodup

/-!
# The books of an outlet

The items that a queue accepted are, in this order, those that the worker is done with, the
one it has in hand, those that were thrown away, and those that are still queued.  The
counter of unfinished items agrees with this list at every moment, so that a call of
`wait_idle` waits exactly as long as there is something to wait for.
-/

namespace CodeCub
namespace Pico

variable {C : Type}

/-- The attempts made so far fit what the worker is waiting for. -/
def Job.Ok (retries : Int) (count : Nat) : Job → Prop
  | .chunk => True
  | .deliver attempt => count = attempt + 1 ∧ (attempt : Int) ≤ retries
  | .backoff attempt => count = attempt ∧ (attempt : Int) ≤ retries
  | .report => True

namespace Outbox

/-- The books, with the item that the worker has in hand. -/
structure Holds (retries : Int) (box : Outbox C) (hand : Option (Entry C)) : Prop where
  order : box.accepted = box.finished ++ (hand.toList ++ (box.drained ++ box.queue))
  unfinished : box.unfinished = box.queue.length + hand.toList.length
  waits : box.waiters ≠ [] → box.unfinished ≠ 0
  numbers : (box.accepted.map Entry.number).Nodup
  tried : ∀ n ∈ box.attempts, n ∈ (box.finished ++ hand.toList).map Entry.number
  bounded : ∀ n, box.attempts.count n ≤ (retries + 1).toNat

structure Ok (retries : Int) (box : Outbox C) : Prop where
  holds : box.Holds retries box.worker.entry?
  job : ∀ entry job, box.worker = .busy entry job →
    job.Ok retries (box.attempts.count entry.number)
  swept : box.drained = [] ∨ box.queue = []

variable {retries : Int} {box : Outbox C} {entry : Entry C} {hand : Option (Entry C)}

theorem ok_init : Ok retries ({} : Outbox C) where
  holds :=
    { order := rfl, unfinished := rfl, waits := fun h => absurd rfl h, numbers := List.nodup_nil
      tried := fun _ h => (by cases h), bounded := fun _ => Nat.zero_le _ }
  job _ _ h := by cases h
  swept := Or.inl rfl

theorem ok_of_idle (h : box.Holds retries none) (hidle : box.worker.entry? = none)
    (hswept : box.drained = [] ∨ box.queue = []) : box.Ok retries := by
  refine ⟨by rw [hidle]; exact h, ?_, hswept⟩
  intro entry job hbusy
  rw [hbusy] at hidle
  cases hidle

theorem Ok.busy (h : box.Ok retries) {job : Job} (hbusy : box.worker = .busy entry job) :
    box.Holds retries (some entry) := by
  have hholds := h.holds
  rw [hbusy] at hholds
  exact hholds

/-! ## Putting and taking -/

theorem Holds.putNowait (h : box.Holds retries hand)
    (hnew : entry.number ∉ box.accepted.map Entry.number) :
    (box.putNowait entry).Holds retries hand where
  order := by
    show box.accepted ++ [entry] =
      box.finished ++ (hand.toList ++ (box.drained ++ (box.queue ++ [entry])))
    rw [h.order]
    simp only [List.append_assoc]
  unfinished := by
    show box.unfinished + 1 = (box.queue ++ [entry]).length + _
    rw [h.unfinished, List.length_append, List.length_singleton]
    omega
  waits _ := Nat.succ_ne_zero _
  numbers := by
    show ((box.accepted ++ [entry]).map Entry.number).Nodup
    rw [List.map_append, List.nodup_append]
    refine ⟨h.numbers, List.nodup_singleton _, ?_⟩
    intro n hn m hm hsame
    rw [List.map_singleton, List.mem_singleton] at hm
    rw [hsame, hm] at hn
    exact hnew hn
  tried := h.tried
  bounded := h.bounded

theorem Ok.putNowait (h : box.Ok retries) (hnew : entry.number ∉ box.accepted.map Entry.number)
    (hdrained : box.drained = []) : (box.putNowait entry).Ok retries :=
  ⟨h.holds.putNowait hnew, h.job, Or.inl hdrained⟩

/-- A queue that is drained keeps its books, and is empty. -/
theorem Holds.drain (h : box.Holds retries hand) : box.drain.Holds retries hand where
  order := by
    show box.accepted = box.finished ++ (hand.toList ++ ((box.drained ++ box.queue) ++ []))
    rw [List.append_nil]
    exact h.order
  unfinished := by
    show box.unfinished - box.queue.length = 0 + hand.toList.length
    rw [h.unfinished]
    omega
  waits hsome := by
    intro hnone
    have hnone : box.unfinished - box.queue.length = 0 := hnone
    exact hsome (if_pos hnone)
  numbers := h.numbers
  tried := h.tried
  bounded := h.bounded

theorem Ok.drain (h : box.Ok retries) : box.drain.Ok retries :=
  ⟨h.holds.drain, h.job, Or.inr rfl⟩

/-- Nothing is left of what is put into the queue of a closed hub. -/
theorem Ok.put_drain (h : box.Ok retries)
    (hnew : entry.number ∉ box.accepted.map Entry.number) :
    (box.putNowait entry).drain.Ok retries :=
  ⟨(h.holds.putNowait hnew).drain, h.job, Or.inr rfl⟩

theorem Ok.wake (h : box.Ok retries) : box.wake.Ok retries := by
  cases hworker : box.worker with
  | gone =>
      have hholds := h.holds
      rw [hworker] at hholds
      have hwoken : box.wake = { box with worker := .idle } := by
        rw [Outbox.wake, hworker]
        rfl
      rw [hwoken]
      exact ok_of_idle
        { order := hholds.order, unfinished := hholds.unfinished, waits := hholds.waits
          numbers := hholds.numbers, tried := hholds.tried, bounded := hholds.bounded } rfl h.swept
  | _ =>
      have hwoken : box.wake = box := by
        rw [Outbox.wake, hworker]
        cases box
        simp_all
      rw [hwoken]
      exact h

/-- The first item goes from the queue into the hand of the worker. -/
theorem Ok.take (h : box.Ok retries) (hidle : box.worker = .idle) {rest : List (Entry C)}
    (hqueue : box.queue = entry :: rest) :
    Holds retries { box with queue := rest } (some entry) ∧
      box.attempts.count entry.number = 0 ∧ box.drained = [] := by
  have hholds := h.holds
  rw [hidle] at hholds
  have hdrained : box.drained = [] := by
    rcases h.swept with hnone | hempty
    · exact hnone
    · rw [hqueue] at hempty
      cases hempty
  have horder : box.accepted = box.finished ++ (entry :: rest) := by
    rw [hholds.order, hdrained, hqueue]
    rfl
  refine ⟨?_, ?_, hdrained⟩
  · refine
      { order := ?_, unfinished := ?_, waits := hholds.waits, numbers := hholds.numbers
        tried := ?_, bounded := hholds.bounded }
    · show box.accepted = box.finished ++ ([entry] ++ (box.drained ++ rest))
      rw [horder, hdrained]
      rfl
    · show box.unfinished = rest.length + 1
      rw [hholds.unfinished, hqueue]
      rfl
    · intro n hn
      have hmem : n ∈ (box.finished ++ []).map Entry.number := hholds.tried n hn
      rw [List.append_nil] at hmem
      rw [List.map_append]
      exact List.mem_append_left _ hmem
  · -- What the worker is done with has other numbers.
    rw [List.count_eq_zero]
    intro hmem
    have hmem : entry.number ∈ (box.finished ++ []).map Entry.number := hholds.tried _ hmem
    rw [List.append_nil] at hmem
    have hnumbers := hholds.numbers
    rw [horder, List.map_append, List.nodup_append] at hnumbers
    exact hnumbers.2.2 entry.number hmem entry.number List.mem_cons_self rfl

/-! ## The item in hand -/

theorem Holds.finish (h : box.Holds retries (some entry))
    (hswept : box.drained = [] ∨ box.queue = []) {worker : OutletWorker C}
    (hidle : worker.entry? = none) :
    (box.finish entry worker).Ok retries := by
  refine ok_of_idle ?_ hidle hswept
  refine
    { order := ?_, unfinished := ?_, waits := ?_, numbers := h.numbers, tried := ?_
      bounded := h.bounded }
  · show box.accepted = (box.finished ++ [entry]) ++ ([] ++ (box.drained ++ box.queue))
    rw [h.order]
    simp only [Option.toList_some, List.append_assoc, List.nil_append]
  · show box.unfinished - 1 = box.queue.length + 0
    rw [h.unfinished]
    rfl
  · intro hsome hnone
    have hnone : box.unfinished - 1 = 0 := hnone
    exact hsome (if_pos hnone)
  · intro n hn
    show n ∈ ((box.finished ++ [entry]) ++ []).map Entry.number
    rw [List.append_nil]
    exact h.tried n hn

theorem Holds.await (h : box.Holds retries (some entry))
    (hswept : box.drained = [] ∨ box.queue = []) {job : Job}
    (hjob : job.Ok retries (box.attempts.count entry.number)) :
    (box.await entry job).Ok retries := by
  refine ⟨?_, ?_, hswept⟩
  · exact
      { order := h.order, unfinished := h.unfinished, waits := h.waits, numbers := h.numbers
        tried := h.tried, bounded := h.bounded }
  · intro other otherJob hbusy
    cases hbusy
    exact hjob

theorem Holds.attempt (h : box.Holds retries (some entry))
    (hswept : box.drained = [] ∨ box.queue = []) {attempt : Nat}
    (hcount : box.attempts.count entry.number = attempt) (hle : (attempt : Int) ≤ retries) :
    (box.attempt entry attempt).Ok retries := by
  refine ⟨?_, ?_, hswept⟩
  · refine
      { order := h.order, unfinished := h.unfinished, waits := h.waits, numbers := h.numbers
        tried := ?_, bounded := ?_ }
    · intro n hn
      rcases List.mem_append.mp hn with hold | hnew
      · exact h.tried n hold
      · rw [List.mem_singleton.mp hnew, List.map_append]
        exact List.mem_append_right _ List.mem_cons_self
    · intro n
      show (box.attempts ++ [entry.number]).count n ≤ _
      rw [List.count_append, List.count_singleton]
      have hbounded := h.bounded n
      split
      · next hsame =>
          rw [← beq_iff_eq.mp hsame, hcount]
          omega
      · omega
  · intro other otherJob hbusy
    cases hbusy
    refine ⟨?_, hle⟩
    show (box.attempts ++ [entry.number]).count entry.number = attempt + 1
    rw [List.count_append, hcount, List.count_singleton_self]

/-- The waiters may change as long as there is something to wait for. -/
theorem Ok.withWaiters (h : box.Ok retries) (waiters : List Nat)
    (hwaits : waiters ≠ [] → box.unfinished ≠ 0) : Ok retries { box with waiters } :=
  ⟨{ order := h.holds.order, unfinished := h.holds.unfinished, waits := hwaits
     numbers := h.holds.numbers, tried := h.holds.tried, bounded := h.holds.bounded },
    h.job, h.swept⟩

end Outbox

namespace Hub

/-- The books of all outlets, and of the hub. -/
structure Books (retries : Int) (box : String → Outbox C) (accepted : List (Entry C))
    (closed closing : Bool) : Prop where
  boxes : ∀ channel, (box channel).Ok retries
  split : ∀ channel, (box channel).accepted =
    accepted.filter fun entry => entry.channel = channel
  numbers : accepted.map Entry.number = List.range accepted.length
  kept : closed = false → ∀ channel, (box channel).drained = []
  sealed : closing = true → closed = true

def Ok (config : HubConfig) (s : Hub C) : Prop :=
  Books config.sendMaxRetries s.box s.accepted s.closed s.closing

variable {config : HubConfig} {s : Hub C}

theorem ok_init : Ok config ({} : Hub C) where
  boxes _ := Outbox.ok_init
  split _ := rfl
  numbers := rfl
  kept _ _ := rfl
  sealed h := by cases h

/-- One outlet changes, and accepts nothing. -/
theorem Ok.update (h : s.Ok config) {t : Hub C} (channel : String)
    (hbox : (t.box channel).Ok config.sendMaxRetries)
    (hsame : (t.box channel).accepted = (s.box channel).accepted ∧
      (t.box channel).drained = (s.box channel).drained)
    (hother : ∀ other, other ≠ channel → t.box other = s.box other)
    (haccepted : t.accepted = s.accepted) (hclosed : t.closed = s.closed)
    (hclosing : t.closing = s.closing) : t.Ok config where
  boxes other := by
    by_cases hchannel : other = channel
    · rw [hchannel]
      exact hbox
    · rw [hother other hchannel]
      exact h.boxes other
  split other := by
    rw [haccepted, ← h.split other]
    by_cases hchannel : other = channel
    · rw [hchannel]
      exact hsame.1
    · rw [hother other hchannel]
  numbers := by
    rw [haccepted]
    exact h.numbers
  kept hopen other := by
    rw [hclosed] at hopen
    by_cases hchannel : other = channel
    · rw [hchannel, hsame.2]
      exact h.kept hopen channel
    · rw [hother other hchannel]
      exact h.kept hopen other
  sealed := by
    rw [hclosed, hclosing]
    exact h.sealed

theorem Ok.setBox (h : s.Ok config) (channel : String) {box : Outbox C}
    (hok : box.Ok config.sendMaxRetries) (haccepted : box.accepted = (s.box channel).accepted)
    (hdrained : box.drained = (s.box channel).drained) : (s.setBox channel box).Ok config := by
  have hbox : (s.setBox channel box).box channel = box := Function.update_self _ _ _
  refine h.update channel ?_ ?_ ?_ rfl rfl rfl
  · rw [hbox]
    exact hok
  · rw [hbox]
    exact ⟨haccepted, hdrained⟩
  · intro other hother
    exact Function.update_of_ne hother _ _

theorem Ok.number_new (h : s.Ok config) (channel : String) :
    s.accepted.length ∉ (s.box channel).accepted.map Entry.number := by
  intro hmem
  rw [h.split channel] at hmem
  obtain ⟨entry, hentry, hnumber⟩ := List.mem_map.mp hmem
  have hrange : entry.number ∈ s.accepted.map Entry.number :=
    List.mem_map_of_mem (List.mem_filter.mp hentry).1
  rw [h.numbers, List.mem_range, hnumber] at hrange
  exact Nat.lt_irrefl _ hrange

theorem putNowait_box (s : Hub C) (channel other : String) (item : Item C) :
    (s.putNowait channel item).box other =
      if other = channel then
        (s.box channel).putNowait { number := s.accepted.length, channel, item }
      else s.box other := by
  by_cases hsame : other = channel
  · subst hsame
    simp [Hub.putNowait, Hub.setBox]
  · simp [Hub.putNowait, Hub.setBox, hsame]

theorem putNowait_split (h : s.Ok config) (channel other : String) (item : Item C) :
    ((s.putNowait channel item).box other).accepted =
      (s.putNowait channel item).accepted.filter fun entry => entry.channel = other := by
  rw [putNowait_box]
  show _ = (s.accepted ++ [_]).filter _
  rw [List.filter_append, ← h.split other]
  split
  · next hsame =>
      subst hsame
      simp [Outbox.putNowait]
  · next hother => simp [Ne.symm hother]

theorem putNowait_numbers (h : s.Ok config) (channel : String) (item : Item C) :
    (s.putNowait channel item).accepted.map Entry.number =
      List.range (s.putNowait channel item).accepted.length := by
  show (s.accepted ++ [_]).map Entry.number = List.range (s.accepted ++ [_]).length
  rw [List.map_append, h.numbers, List.length_append, List.length_singleton, List.range_succ]
  rfl

theorem Ok.put (h : s.Ok config) (channel : String) (item : Item C) :
    (s.put channel item).1.Ok config := by
  have hnew := h.number_new channel
  rw [Hub.put]
  cases hclosed : s.closed with
  | true =>
      refine ⟨?_, ?_, putNowait_numbers h channel item, ?_, fun _ => hclosed⟩
      · intro other
        show (((s.putNowait channel item).box other).drain).Ok _
        rw [putNowait_box]
        split
        · exact (h.boxes channel).put_drain hnew
        · exact (h.boxes other).drain
      · intro other
        exact putNowait_split h channel other item
      · intro hopen
        have hopen : s.closed = false := hopen
        rw [hclosed] at hopen
        cases hopen
  | false =>
      refine ⟨?_, fun other => putNowait_split h channel other item,
        putNowait_numbers h channel item, ?_, h.sealed⟩
      · intro other
        show ((s.putNowait channel item).box other).Ok _
        rw [putNowait_box]
        split
        · exact (h.boxes channel).putNowait hnew (h.kept hclosed channel)
        · exact h.boxes other
      · intro _ other
        show ((s.putNowait channel item).box other).drained = []
        rw [putNowait_box]
        split
        · exact h.kept hclosed channel
        · exact h.kept hclosed other

/-! ## The calls -/

theorem Ok.startPut (h : s.Ok config) (channel : String) (item : Item C) :
    (s.startPut channel item).1.Ok config := by
  rw [Hub.startPut]
  split
  · exact h
  · exact h.put channel item

theorem Ok.openChannel (h : s.Ok config) (channel : String) : (s.openChannel channel).Ok config :=
  h.setBox channel (h.boxes channel).wake rfl rfl

theorem Ok.prepare [DecidableEq C] (h : s.Ok config) (out : Deliverable C) (channel : String) :
    (s.prepare out channel).Ok config := by
  have hrecorded : (s.recordChannel out.conversation channel).Ok config := h
  rw [Hub.prepare]
  split
  · exact hrecorded.openChannel channel
  · exact h.openChannel channel

theorem Ok.dispatch [DecidableEq C] (h : s.Ok config) (out : Deliverable C) :
    (s.dispatch config out).1.Ok config := by
  rw [Hub.dispatch]
  split
  · exact h
  · split
    · exact h
    · next source hsource =>
        split
        · exact h
        · exact (h.prepare out source.channel).startPut source.channel _

theorem Ok.closeStream [DecidableEq C] (h : s.Ok config) (conversation : C) :
    (s.closeStream conversation).1.Ok config := by
  rw [Hub.closeStream]
  split
  · exact h
  · split
    · exact h
    · next channel hchannel =>
        have hpopped : (s.forgetChannel conversation).Ok config := h
        split
        · exact hpopped.startPut channel _
        · exact hpopped

theorem Ok.resume (h : s.Ok config) (id : Nat) : (s.resume id).1.Ok config := by
  have hwithout : (s.withoutCall id).Ok config := h
  rw [Hub.resume]
  split
  · exact h
  · next call hcall =>
      split
      · exact h
      · exact hwithout.put call.channel call.item

theorem Ok.cancelCall [DecidableEq C] (h : s.Ok config) (id : Nat) :
    (s.cancelCall id).Ok config := by
  rw [Hub.cancelCall]
  split
  · exact h
  · next call hcall =>
      split
      · exact h
      · split
        · exact h
        · exact h

theorem Ok.waitIdle (h : s.Ok config) (channel : String) : (s.waitIdle channel).1.Ok config := by
  simp only [Hub.waitIdle]
  split
  · exact h
  · next hbusy =>
      have hbox := (h.boxes channel).withWaiters ((s.box channel).waiters ++ [s.called])
        fun _ hnone => hbusy (Or.inr hnone)
      exact h.setBox channel hbox rfl rfl

theorem Ok.cancelWait (h : s.Ok config) (channel : String) (id : Nat) :
    (s.cancelWait channel id).Ok config := by
  have hbox := (h.boxes channel).withWaiters
    ((s.box channel).waiters.filter fun waiter => waiter ≠ id) (by
      intro hsome
      apply (h.boxes channel).holds.waits
      intro hnone
      rw [hnone] at hsome
      exact hsome rfl)
  exact h.setBox channel hbox rfl rfl

/-! ## The workers -/

theorem Ok.finish (h : s.Ok config) (channel : String) {entry : Entry C}
    (hholds : (s.box channel).Holds config.sendMaxRetries (some entry)) :
    (s.finish channel entry).Ok config := by
  refine h.setBox channel (hholds.finish (h.boxes channel).swept ?_) rfl rfl
  split <;> rfl

/-- What the worker may make of the item that it has taken: it awaits something, or is
done with it.  Nothing else changes but the streams. -/
structure Processed (config : HubConfig) (s : Hub C) (channel : String) (entry : Entry C)
    (t : Hub C) : Prop where
  box : t.box channel = (s.box channel).await entry .chunk ∨
    (∃ worker, worker.entry? = none ∧ t.box channel = (s.box channel).finish entry worker) ∨
    (0 ≤ config.sendMaxRetries ∧ t.box channel = (s.box channel).attempt entry 0)
  other : ∀ other, other ≠ channel → t.box other = s.box other
  rest : t.accepted = s.accepted ∧ t.closed = s.closed ∧ t.closing = s.closing ∧
    t.taken = s.taken ∧ t.calls = s.calls ∧ t.streamChannel = s.streamChannel ∧
    t.channels = s.channels

theorem processed_finish (s : Hub C) (channel : String) (entry : Entry C) :
    Processed config s channel entry (s.finish channel entry) where
  box := by
    refine Or.inr (Or.inl ⟨if s.closed then .gone else .idle, ?_, Function.update_self _ _ _⟩)
    split <;> rfl
  other _ hother := Function.update_of_ne hother _ _
  rest := ⟨rfl, rfl, rfl, rfl, rfl, rfl, rfl⟩

theorem processed_sendChunk (s : Hub C) (channel : String) (entry : Entry C) (chunk : Chunk C) :
    Processed config s channel entry (s.sendChunk channel entry chunk) where
  box := Or.inl (Function.update_self _ _ _)
  other _ hother := Function.update_of_ne hother _ _
  rest := ⟨rfl, rfl, rfl, rfl, rfl, rfl, rfl⟩

theorem Processed.of_streams {channel : String} {entry : Entry C} {t : Hub C}
    (openStreams : C → Option String)
    (h : Processed config { s with openStreams } channel entry t) :
    Processed config s channel entry t :=
  ⟨h.box, h.other, h.rest⟩

theorem process_processed [DecidableEq C] (config : HubConfig) (s : Hub C) (channel : String)
    (entry : Entry C) :
    Processed config s channel entry (s.process config channel entry) := by
  rw [Hub.process]
  split
  · next conversation hitem =>
      rw [Hub.closeStreamChunk]
      split
      · exact processed_finish s channel entry
      · simp only
        split
        · exact (processed_sendChunk _ channel entry _).of_streams _
        · exact (processed_finish _ channel entry).of_streams _
  · next out hitem =>
      split
      · next delta hcontent =>
          simp only [Hub.streamChunk]
          split
          · exact (processed_sendChunk _ channel entry _).of_streams _
          · exact processed_finish s channel entry
      · rw [Hub.deliverWithRetry]
        split
        · exact processed_finish s channel entry
        · next hretries =>
            refine ⟨Or.inr (Or.inr ⟨by omega, Function.update_self _ _ _⟩), ?_, ?_⟩
            · exact fun _ hother => Function.update_of_ne hother _ _
            · exact ⟨rfl, rfl, rfl, rfl, rfl, rfl, rfl⟩

theorem Ok.processed (h : s.Ok config) {channel : String} {entry : Entry C}
    {rest : List (Entry C)} (hidle : (s.box channel).worker = .idle)
    (hqueue : (s.box channel).queue = entry :: rest) {t : Hub C}
    (ht : Processed config (s.take channel entry rest) channel entry t) : t.Ok config := by
  obtain ⟨hholds, hcount, hdrained⟩ := (h.boxes channel).take hidle hqueue
  have hbox : (s.take channel entry rest).box channel = { s.box channel with queue := rest } :=
    Function.update_self _ _ _
  have htaken := ht.box
  rw [hbox] at htaken
  refine h.update channel ?_ ?_ ?_ ht.rest.1 ht.rest.2.1 ht.rest.2.2.1
  · rcases htaken with hawait | ⟨worker, hworker, hfinish⟩ | ⟨hretries, hattempt⟩
    · rw [hawait]
      exact hholds.await (Or.inl hdrained) trivial
    · rw [hfinish]
      exact hholds.finish (Or.inl hdrained) hworker
    · rw [hattempt]
      exact hholds.attempt (Or.inl hdrained) hcount hretries
  · rcases htaken with hawait | ⟨worker, hworker, hfinish⟩ | ⟨hretries, hattempt⟩
    · rw [hawait]
      exact ⟨rfl, rfl⟩
    · rw [hfinish]
      exact ⟨rfl, rfl⟩
    · rw [hattempt]
      exact ⟨rfl, rfl⟩
  · intro other hother
    rw [ht.other other hother]
    exact Function.update_of_ne hother _ _

theorem Ok.get [DecidableEq C] (h : s.Ok config) (channel : String) :
    (s.get config channel).Ok config := by
  rw [Hub.get]
  split
  · next entry rest hidle hqueue =>
      exact h.processed hidle hqueue (process_processed config _ channel entry)
  · exact h

theorem Ok.drop (h : s.Ok config) (channel : String) {entry : Entry C}
    (hholds : (s.box channel).Holds config.sendMaxRetries (some entry)) :
    (s.drop config channel entry).Ok config := by
  rw [Hub.drop]
  split
  · split
    · exact h.setBox channel (hholds.await (h.boxes channel).swept trivial) rfl rfl
    · exact h.finish channel hholds
  · exact h.finish channel hholds

theorem Ok.outletDone (h : s.Ok config) (channel : String) (outletEnd : OutletEnd) :
    (s.outletDone config channel outletEnd).Ok config := by
  rw [Hub.outletDone]
  split
  · next entry hbusy => exact h.finish channel ((h.boxes channel).busy hbusy)
  · next entry hbusy => exact h.finish channel ((h.boxes channel).busy hbusy)
  · next entry attempt hbusy =>
      have hholds := (h.boxes channel).busy hbusy
      obtain ⟨hcount, hle⟩ := (h.boxes channel).job entry _ hbusy
      split
      · exact h.finish channel hholds
      · exact h.drop channel hholds
      · split
        · exact h.drop channel hholds
        · next hmore =>
            refine h.setBox channel (hholds.await (h.boxes channel).swept ?_) rfl rfl
            refine ⟨hcount, ?_⟩
            omega
  · exact h

theorem Ok.retry (h : s.Ok config) (channel : String) : (s.retry channel).Ok config := by
  rw [Hub.retry]
  split
  · next entry attempt hbusy =>
      obtain ⟨hcount, hle⟩ := (h.boxes channel).job entry _ hbusy
      exact h.setBox channel
        (((h.boxes channel).busy hbusy).attempt (h.boxes channel).swept hcount hle) rfl rfl
  · exact h

theorem Ok.stop (h : s.Ok config) (channel : String) : (s.stop channel).Ok config := by
  rw [Hub.stop]
  split
  · next entry job hbusy =>
      exact h.setBox channel
        (((h.boxes channel).busy hbusy).finish (h.boxes channel).swept rfl) rfl rfl
  · next hidle =>
      split
      · have hholds := (h.boxes channel).holds
        rw [hidle] at hholds
        have hgone : Outbox.Ok config.sendMaxRetries { s.box channel with worker := .gone } :=
          Outbox.ok_of_idle
            { order := hholds.order, unfinished := hholds.unfinished, waits := hholds.waits
              numbers := hholds.numbers, tried := hholds.tried, bounded := hholds.bounded } rfl
            (h.boxes channel).swept
        exact h.setBox channel hgone rfl rfl
      · exact h
  · exact h

theorem Ok.drain (h : s.Ok config) (hclosed : s.closed = true) : s.drain.Ok config where
  boxes other := (h.boxes other).drain
  split := h.split
  numbers := h.numbers
  kept hopen := by
    have hopen : s.closed = false := hopen
    rw [hclosed] at hopen
    cases hopen
  sealed := h.sealed

theorem Ok.finishClose (h : s.Ok config) : s.finishClose.Ok config := by
  rw [Hub.finishClose]
  split
  · next hend => exact h.drain (h.sealed hend.1)
  · exact h

theorem Ok.step [DecidableEq C] (h : s.Ok config) (i : HubStep C) :
    (s.step config i).1.Ok config := by
  cases i with
  | dispatch out => exact h.dispatch out
  | closeStream conversation => exact h.closeStream conversation
  | resume id => exact h.resume id
  | cancelCall id => exact h.cancelCall id
  | waitIdle channel => exact h.waitIdle channel
  | cancelWait channel id => exact h.cancelWait channel id
  | get channel => exact h.get channel
  | outletDone channel outletEnd => exact h.outletDone channel outletEnd
  | retry channel => exact h.retry channel
  | stop channel => exact h.stop channel
  | aclose => exact ⟨h.boxes, h.split, h.numbers, fun hopen => (by cases hopen), fun _ => rfl⟩
  | cancelWorkers =>
      show (Hub.cancelWorkers s).Ok config
      rw [Hub.cancelWorkers]
      split
      · next hclosed => exact ⟨h.boxes, h.split, h.numbers, h.kept, fun _ => hclosed⟩
      · exact h
  | finishClose => exact h.finishClose

theorem ok_run [DecidableEq C] (is : List (HubStep C)) :
    ((hubMachine C config).run {} is).Ok config :=
  Machine.run_preserves (m := hubMachine C config) (P := Ok config) (fun _ i h => h.step i) is
    ok_init

end Hub
end Pico
end CodeCub
