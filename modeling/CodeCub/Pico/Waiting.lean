import CodeCub.Pico.Outlets

/-!
# What a step of the hub leaves alone

A queue is known before anything can be put into it.  Steps of the outlets move no item,
and a call of `wait_idle` goes on waiting until its channel has nothing unfinished.
-/

namespace CodeCub
namespace Pico

variable {C : Type}

namespace Hub

variable {config : HubConfig} {s : Hub C}

/-! ## The channels that are known -/

/-- A channel with items, with a call that waits, or with a stream has a queue. -/
structure Known (s : Hub C) : Prop where
  accepted : ∀ entry ∈ s.accepted, entry.channel ∈ s.channels
  calls : ∀ call ∈ s.calls, call.channel ∈ s.channels
  streams : ∀ conversation channel, s.streamChannel conversation = some channel →
    channel ∈ s.channels

theorem known_init : Known ({} : Hub C) where
  accepted _ h := by cases h
  calls _ h := by cases h
  streams _ _ h := by cases h

theorem Known.putNowait (h : s.Known) {channel : String} (hchannel : channel ∈ s.channels)
    (item : Item C) : (s.putNowait channel item).Known where
  accepted entry hentry := by
    rcases List.mem_append.mp hentry with hold | hnew
    · exact h.accepted entry hold
    · rw [List.mem_singleton.mp hnew]
      exact hchannel
  calls := h.calls
  streams := h.streams

theorem Known.put (h : s.Known) {channel : String} (hchannel : channel ∈ s.channels)
    (item : Item C) : (s.put channel item).1.Known := by
  have hput := h.putNowait hchannel item
  rw [Hub.put]
  split
  · exact ⟨hput.accepted, hput.calls, hput.streams⟩
  · exact hput

theorem Known.startPut (h : s.Known) {channel : String} (hchannel : channel ∈ s.channels)
    (item : Item C) : (s.startPut channel item).1.Known := by
  rw [Hub.startPut]
  split
  · refine ⟨h.accepted, ?_, h.streams⟩
    intro call hcall
    rcases List.mem_append.mp hcall with hold | hnew
    · exact h.calls call hold
    · rw [List.mem_singleton.mp hnew]
      exact hchannel
  · exact h.put hchannel item

theorem mem_openChannel (s : Hub C) (channel : String) :
    channel ∈ (s.openChannel channel).channels ∧
      s.channels ⊆ (s.openChannel channel).channels := by
  show channel ∈ (if channel ∈ s.channels then s.channels else s.channels ++ [channel]) ∧
    s.channels ⊆ if channel ∈ s.channels then s.channels else s.channels ++ [channel]
  split
  · next hknown => exact ⟨hknown, List.Subset.refl _⟩
  · exact ⟨List.mem_append_right _ (List.mem_singleton_self _), List.subset_append_left _ _⟩

theorem Known.openChannel (h : s.Known) (channel : String) : (s.openChannel channel).Known where
  accepted entry hentry := (mem_openChannel s channel).2 (h.accepted entry hentry)
  calls call hcall := (mem_openChannel s channel).2 (h.calls call hcall)
  streams conversation other hother :=
    (mem_openChannel s channel).2 (h.streams conversation other hother)

theorem recordChannel_of_ne [DecidableEq C] (s : Hub C) {conversation other : C}
    (hother : other ≠ conversation) (channel : String) :
    (s.recordChannel conversation channel).streamChannel other = s.streamChannel other :=
  Function.update_of_ne hother _ _

theorem recordChannel_self [DecidableEq C] (s : Hub C) (conversation : C) (channel : String) :
    (s.recordChannel conversation channel).streamChannel conversation =
      some ((s.streamChannel conversation).getD channel) :=
  Function.update_self _ _ _

/-- The channel that is recorded is the one there was, or the new one. -/
theorem Known.recordChannel [DecidableEq C] (h : s.Known) {channels : List String}
    (hchannels : s.channels ⊆ channels) {conversation : C} {channel : String}
    (hchannel : channel ∈ channels) {other : C} {found : String}
    (hfound : (s.recordChannel conversation channel).streamChannel other = some found) :
    found ∈ channels := by
  by_cases hsame : other = conversation
  · rw [hsame, recordChannel_self] at hfound
    cases hold : s.streamChannel conversation with
    | none =>
        rw [hold] at hfound
        cases hfound
        exact hchannel
    | some old =>
        rw [hold] at hfound
        cases hfound
        exact hchannels (h.streams conversation old hold)
  · rw [recordChannel_of_ne s hsame] at hfound
    exact hchannels (h.streams other found hfound)

theorem prepare_channels [DecidableEq C] (s : Hub C) (out : Deliverable C) (channel : String) :
    (s.prepare out channel).channels = (s.openChannel channel).channels := by
  rw [Hub.prepare]
  split <;> rfl

theorem Known.prepare [DecidableEq C] (h : s.Known) (out : Deliverable C) (channel : String) :
    (s.prepare out channel).Known := by
  have hopened := mem_openChannel s channel
  rw [Hub.prepare]
  split
  · refine ⟨fun entry hentry => hopened.2 (h.accepted entry hentry),
      fun call hcall => hopened.2 (h.calls call hcall), ?_⟩
    intro other found hfound
    exact h.recordChannel hopened.2 hopened.1 hfound
  · exact h.openChannel channel

theorem Known.withoutCall (h : s.Known) (id : Nat) : (s.withoutCall id).Known where
  accepted := h.accepted
  calls call hcall := h.calls call (List.mem_of_mem_eraseP hcall)
  streams := h.streams

/-- A step of the environment or of a worker that leaves the tables alone. -/
theorem Known.same (h : s.Known) {t : Hub C} (haccepted : t.accepted = s.accepted)
    (hcalls : t.calls = s.calls) (hstreams : t.streamChannel = s.streamChannel)
    (hchannels : t.channels = s.channels) : t.Known := by
  refine ⟨?_, ?_, ?_⟩
  · rw [haccepted, hchannels]
    exact h.accepted
  · rw [hcalls, hchannels]
    exact h.calls
  · rw [hstreams, hchannels]
    exact h.streams

/-! ## Steps in which nothing is put or taken -/

end Hub

/-- A call of `wait_idle` that waits goes on waiting, or nothing is unfinished. -/
def Outbox.Awaited (box after : Outbox C) : Prop :=
  ∀ id ∈ box.waiters, id ∈ after.waiters ∨ after.unfinished = 0

theorem Outbox.awaited_taskDone (box : Outbox C) (count : Nat) :
    box.Awaited (box.taskDone count) := by
  intro id hid
  show id ∈ (if box.unfinished - count = 0 then [] else box.waiters) ∨ box.unfinished - count = 0
  split
  · next hnone => exact Or.inr hnone
  · exact Or.inl hid

namespace Hub

variable {config : HubConfig} {s : Hub C}

structure Moves (s t : Hub C) : Prop where
  queues : ∀ channel, (t.box channel).queue = (s.box channel).queue
  tables : t.accepted = s.accepted ∧ t.taken = s.taken ∧ t.chunks = s.chunks ∧
    t.openStreams = s.openStreams
  calls : t.calls = s.calls ∧ t.streamChannel = s.streamChannel ∧ t.channels = s.channels
  closed : t.closed = s.closed

def Awaits (s t : Hub C) : Prop := ∀ channel, (s.box channel).Awaited (t.box channel)

theorem Moves.refl (s : Hub C) : s.Moves s :=
  ⟨fun _ => rfl, ⟨rfl, rfl, rfl, rfl⟩, ⟨rfl, rfl, rfl⟩, rfl⟩

theorem Awaits.refl (s : Hub C) : s.Awaits s := fun _ _ hid => Or.inl hid

theorem moves_setBox (s : Hub C) (channel : String) {box : Outbox C}
    (hqueue : box.queue = (s.box channel).queue) : s.Moves (s.setBox channel box) := by
  refine ⟨?_, ⟨rfl, rfl, rfl, rfl⟩, ⟨rfl, rfl, rfl⟩, rfl⟩
  intro other
  by_cases hsame : other = channel
  · have hset : (s.setBox channel box).box other = box := by
      rw [hsame]
      exact Function.update_self _ _ _
    rw [hset, hsame]
    exact hqueue
  · have hset : (s.setBox channel box).box other = s.box other := Function.update_of_ne hsame _ _
    rw [hset]

theorem awaits_setBox (s : Hub C) (channel : String) {box : Outbox C}
    (hbox : (s.box channel).Awaited box) : s.Awaits (s.setBox channel box) := by
  intro other
  by_cases hsame : other = channel
  · have hset : (s.setBox channel box).box other = box := by
      rw [hsame]
      exact Function.update_self _ _ _
    rw [hset, hsame]
    exact hbox
  · have hset : (s.setBox channel box).box other = s.box other := Function.update_of_ne hsame _ _
    rw [hset]
    exact fun _ hid => Or.inl hid

/-- What happens to the worker of a channel that has an item. -/
theorem work_moves (s : Hub C) (channel : String) (entry : Entry C) :
    (∀ worker, s.Moves (s.setBox channel ((s.box channel).finish entry worker)) ∧
      s.Awaits (s.setBox channel ((s.box channel).finish entry worker))) ∧
    (∀ job, s.Moves (s.setBox channel ((s.box channel).await entry job)) ∧
      s.Awaits (s.setBox channel ((s.box channel).await entry job))) ∧
    (∀ attempt, s.Moves (s.setBox channel ((s.box channel).attempt entry attempt)) ∧
      s.Awaits (s.setBox channel ((s.box channel).attempt entry attempt))) :=
  ⟨fun worker => ⟨moves_setBox s channel rfl, awaits_setBox s channel
      (Outbox.awaited_taskDone
        { s.box channel with worker, finished := (s.box channel).finished ++ [entry] } 1)⟩,
    fun _ => ⟨moves_setBox s channel rfl, awaits_setBox s channel fun _ hid => Or.inl hid⟩,
    fun _ => ⟨moves_setBox s channel rfl, awaits_setBox s channel fun _ hid => Or.inl hid⟩⟩

theorem drop_moves (s : Hub C) (channel : String) (entry : Entry C) :
    s.Moves (s.drop config channel entry) ∧ s.Awaits (s.drop config channel entry) := by
  obtain ⟨hfinish, hawait, -⟩ := work_moves s channel entry
  rw [Hub.drop]
  split
  · split
    · exact hawait .report
    · exact hfinish _
  · exact hfinish _

theorem outletDone_moves (s : Hub C) (channel : String) (outletEnd : OutletEnd) :
    s.Moves (s.outletDone config channel outletEnd) ∧
      s.Awaits (s.outletDone config channel outletEnd) := by
  rw [Hub.outletDone]
  split
  · next entry hbusy => exact (work_moves s channel entry).1 _
  · next entry hbusy => exact (work_moves s channel entry).1 _
  · next entry attempt hbusy =>
      split
      · exact (work_moves s channel entry).1 _
      · exact drop_moves s channel entry
      · split
        · exact drop_moves s channel entry
        · exact (work_moves s channel entry).2.1 _
  · exact ⟨Moves.refl s, Awaits.refl s⟩

theorem retry_moves (s : Hub C) (channel : String) :
    s.Moves (s.retry channel) ∧ s.Awaits (s.retry channel) := by
  rw [Hub.retry]
  split
  · next entry attempt hbusy => exact (work_moves s channel entry).2.2 attempt
  · exact ⟨Moves.refl s, Awaits.refl s⟩

theorem stop_moves (s : Hub C) (channel : String) :
    s.Moves (s.stop channel) ∧ s.Awaits (s.stop channel) := by
  rw [Hub.stop]
  split
  · next entry job hbusy => exact (work_moves s channel entry).1 .gone
  · split
    · exact ⟨moves_setBox s channel rfl, awaits_setBox s channel fun _ hid => Or.inl hid⟩
    · exact ⟨Moves.refl s, Awaits.refl s⟩
  · exact ⟨Moves.refl s, Awaits.refl s⟩

theorem waitIdle_moves (s : Hub C) (channel : String) :
    s.Moves (s.waitIdle channel).1 ∧ s.Awaits (s.waitIdle channel).1 := by
  simp only [Hub.waitIdle]
  split
  · exact ⟨Moves.refl s, Awaits.refl s⟩
  · have hmoves : s.Moves (s.setBox channel
        { s.box channel with waiters := (s.box channel).waiters ++ [s.called] }) :=
      moves_setBox s channel rfl
    refine ⟨⟨hmoves.queues, hmoves.tables, hmoves.calls, hmoves.closed⟩, ?_⟩
    exact awaits_setBox s channel fun _ hid => Or.inl (List.mem_append_left _ hid)

theorem cancelWait_moves (s : Hub C) (channel : String) (id : Nat) :
    s.Moves (s.cancelWait channel id) :=
  moves_setBox s channel rfl

theorem Moves.known {t : Hub C} (h : s.Moves t) (hknown : s.Known) : t.Known :=
  hknown.same h.tables.1 h.calls.1 h.calls.2.1 h.calls.2.2

theorem Known.step [DecidableEq C] (h : s.Known) (i : HubStep C) : (s.step config i).1.Known := by
  cases i with
  | dispatch out =>
      show (s.dispatch config out).1.Known
      rw [Hub.dispatch]
      split
      · exact h
      · split
        · exact h
        · next source hsource =>
            split
            · exact h
            · apply (h.prepare out source.channel).startPut
              rw [prepare_channels]
              exact (mem_openChannel s source.channel).1
  | closeStream conversation =>
      have hforgotten : (s.forgetChannel conversation).Known := by
        refine ⟨h.accepted, h.calls, ?_⟩
        intro other channel hother
        by_cases hsame : other = conversation
        · rw [hsame] at hother
          simp [Hub.forgetChannel] at hother
        · simp only [Hub.forgetChannel, Function.update_of_ne hsame] at hother
          exact h.streams other channel hother
      show (s.closeStream conversation).1.Known
      rw [Hub.closeStream]
      split
      · exact h
      · split
        · exact h
        · split
          · next hknown => exact hforgotten.startPut hknown _
          · exact hforgotten
  | resume id =>
      show (s.resume id).1.Known
      rw [Hub.resume]
      split
      · exact h
      · next call hcall =>
          split
          · exact h
          · exact (h.withoutCall id).put (h.calls call (List.mem_of_find?_eq_some hcall)) call.item
  | cancelCall id =>
      show (s.cancelCall id).Known
      rw [Hub.cancelCall]
      split
      · exact h
      · next call hcall =>
          have hchannel := h.calls call (List.mem_of_find?_eq_some hcall)
          split
          · exact h.withoutCall id
          · split
            · exact h.withoutCall id
            · have hwithout := h.withoutCall id
              refine ⟨hwithout.accepted, hwithout.calls, ?_⟩
              intro other channel hother
              exact hwithout.recordChannel (List.Subset.refl _) hchannel hother
  | waitIdle channel => exact (waitIdle_moves s channel).1.known h
  | cancelWait channel id => exact (cancelWait_moves s channel id).known h
  | get channel =>
      show (s.get config channel).Known
      rw [Hub.get]
      split
      · next entry rest hidle hqueue =>
          have hprocessed := process_processed config (s.take channel entry rest) channel entry
          obtain ⟨haccepted, -, -, -, hcalls, hstreams, hchannels⟩ := hprocessed.rest
          exact h.same haccepted hcalls hstreams hchannels
      · exact h
  | outletDone channel outletEnd => exact (outletDone_moves s channel outletEnd).1.known h
  | retry channel => exact (retry_moves s channel).1.known h
  | stop channel => exact (stop_moves s channel).1.known h
  | aclose => exact h.same rfl rfl rfl rfl
  | cancelWorkers =>
      show (Hub.cancelWorkers s).Known
      rw [Hub.cancelWorkers]
      split
      · exact h.same rfl rfl rfl rfl
      · exact h
  | finishClose =>
      show (Hub.finishClose s).Known
      rw [Hub.finishClose]
      split
      · exact ⟨h.accepted, h.calls, fun _ _ hsome => by cases hsome⟩
      · exact h

/-! ## Waiting for an outlet -/

theorem Awaits.of_box {t : Hub C} (h : t.box = s.box) : s.Awaits t := by
  intro channel
  rw [h]
  exact fun _ hid => Or.inl hid

theorem drain_awaits (s : Hub C) : s.Awaits s.drain := fun channel =>
  Outbox.awaited_taskDone
    { s.box channel with queue := [], drained := (s.box channel).drained ++ (s.box channel).queue } _

theorem put_awaits (s : Hub C) (channel : String) (item : Item C) :
    s.Awaits (s.put channel item).1 := by
  have hput : ∀ other, ((s.putNowait channel item).box other).waiters = (s.box other).waiters := by
    intro other
    rw [putNowait_box]
    split
    · next hsame =>
        rw [hsame]
        rfl
    · rfl
  rw [Hub.put]
  split
  · intro other id hid
    exact drain_awaits (s.putNowait channel item) other id (by rw [hput other]; exact hid)
  · intro other id hid
    rw [hput other]
    exact Or.inl hid

theorem startPut_awaits (s : Hub C) (channel : String) (item : Item C) :
    s.Awaits (s.startPut channel item).1 := by
  rw [Hub.startPut]
  split
  · exact Awaits.of_box rfl
  · exact put_awaits s channel item

theorem openChannel_awaits (s : Hub C) (channel : String) : s.Awaits (s.openChannel channel) :=
  awaits_setBox s channel fun _ hid => Or.inl hid

/-- The waiters of a state that no call of `task_done` separates from the first. -/
theorem Awaits.trans {t u : Hub C}
    (hst : ∀ channel, (s.box channel).waiters ⊆ (t.box channel).waiters) (htu : t.Awaits u) :
    s.Awaits u := fun channel id hid => htu channel id (hst channel hid)

theorem prepare_waiters [DecidableEq C] (s : Hub C) (out : Deliverable C) (channel other : String) :
    (s.box other).waiters ⊆ ((s.prepare out channel).box other).waiters := by
  have hopened : ∀ t : Hub C,
      (t.box other).waiters ⊆ ((t.openChannel channel).box other).waiters := by
    intro t
    by_cases hsame : other = channel
    · have hset : (t.openChannel channel).box other = (t.box channel).wake := by
        rw [hsame]
        exact Function.update_self _ _ _
      rw [hset, hsame]
      exact List.Subset.refl _
    · have hset : (t.openChannel channel).box other = t.box other :=
        Function.update_of_ne hsame _ _
      rw [hset]
      exact List.Subset.refl _
  rw [Hub.prepare]
  split
  · exact hopened (s.recordChannel out.conversation channel)
  · exact hopened s

theorem processed_awaits {channel : String} {entry : Entry C} {t : Hub C}
    (h : Processed config s channel entry t) : s.Awaits t := by
  intro other
  by_cases hsame : other = channel
  · rw [hsame]
    rcases h.box with hawait | ⟨worker, -, hfinish⟩ | ⟨-, hattempt⟩
    · rw [hawait]
      exact fun _ hid => Or.inl hid
    · rw [hfinish]
      exact Outbox.awaited_taskDone
        { s.box channel with worker, finished := (s.box channel).finished ++ [entry] } 1
    · rw [hattempt]
      exact fun _ hid => Or.inl hid
  · rw [h.other other hsame]
    exact fun _ hid => Or.inl hid

theorem take_waiters (s : Hub C) (channel : String) (entry : Entry C) (rest : List (Entry C))
    (other : String) :
    (s.box other).waiters ⊆ ((s.take channel entry rest).box other).waiters := by
  by_cases hsame : other = channel
  · have hset : (s.take channel entry rest).box other = { s.box channel with queue := rest } := by
      rw [hsame]
      exact Function.update_self _ _ _
    rw [hset, hsame]
    exact List.Subset.refl _
  · have hset : (s.take channel entry rest).box other = s.box other :=
      Function.update_of_ne hsame _ _
    rw [hset]
    exact List.Subset.refl _

/-- Only its own cancellation, or the end of all work, takes a waiter away. -/
theorem step_awaits [DecidableEq C] (config : HubConfig) (s : Hub C) (i : HubStep C)
    (hwaits : ∀ channel id, i ≠ .cancelWait channel id) : s.Awaits (s.step config i).1 := by
  cases i with
  | dispatch out =>
      show s.Awaits (s.dispatch config out).1
      rw [Hub.dispatch]
      split
      · exact Awaits.refl s
      · split
        · exact Awaits.refl s
        · next source hsource =>
            split
            · exact Awaits.refl s
            · exact Awaits.trans (prepare_waiters s out source.channel) (startPut_awaits _ _ _)
  | closeStream conversation =>
      show s.Awaits (s.closeStream conversation).1
      rw [Hub.closeStream]
      split
      · exact Awaits.refl s
      · split
        · exact Awaits.refl s
        · split
          · exact startPut_awaits (s.forgetChannel conversation) _ _
          · exact Awaits.of_box rfl
  | resume id =>
      show s.Awaits (s.resume id).1
      rw [Hub.resume]
      split
      · exact Awaits.refl s
      · split
        · exact Awaits.refl s
        · exact put_awaits (s.withoutCall id) _ _
  | cancelCall id =>
      show s.Awaits (s.cancelCall id)
      rw [Hub.cancelCall]
      split
      · exact Awaits.refl s
      · split
        · exact Awaits.of_box rfl
        · split
          · exact Awaits.of_box rfl
          · exact Awaits.of_box rfl
  | waitIdle channel => exact (waitIdle_moves s channel).2
  | cancelWait channel id => exact absurd rfl (hwaits channel id)
  | get channel =>
      show s.Awaits (s.get config channel)
      rw [Hub.get]
      split
      · next entry rest hidle hqueue =>
          exact Awaits.trans (take_waiters s channel entry rest)
            (processed_awaits (process_processed config _ channel entry))
      · exact Awaits.refl s
  | outletDone channel outletEnd => exact (outletDone_moves s channel outletEnd).2
  | retry channel => exact (retry_moves s channel).2
  | stop channel => exact (stop_moves s channel).2
  | aclose => exact Awaits.of_box rfl
  | cancelWorkers =>
      show s.Awaits (Hub.cancelWorkers s)
      rw [Hub.cancelWorkers]
      split
      · exact Awaits.of_box rfl
      · exact Awaits.refl s
  | finishClose =>
      show s.Awaits (Hub.finishClose s)
      rw [Hub.finishClose]
      split
      · exact drain_awaits s
      · exact Awaits.refl s

end Hub
end Pico
end CodeCub
