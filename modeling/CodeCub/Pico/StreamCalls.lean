import CodeCub.Pico.Streams

/-!
# Calls and their streams

The side of the callers: `_stream_channel` has the channel of the open block of a stream
until the close that waits, or has been put, takes it away.  With the side of the workers
this gives what the hub promises for whole runs.
-/

namespace CodeCub
namespace Pico
namespace Hub

variable {C : Type} [DecidableEq C] {config : HubConfig} {s : Hub C}

/-! ## The calls -/

/-- Where `_stream_channel` has the stream of a call that waits: a delta has recorded its
channel, and a close has taken the record away. -/
def place (call : Call C) : Option String :=
  match call.item with
  | .routed _ => some call.channel
  | .streamClose _ => none

/-- The calls know the channel of the stream that they belong to. -/
structure Callers (config : HubConfig) (s : Hub C) : Prop where
  blocks : ∀ conversation last,
    (streamOf config conversation s.accepted).getLast? = some last → last.isClose = false →
      s.streamChannel conversation = some last.channel ∨
        ∃ call ∈ s.calls, call.item = .streamClose conversation ∧ call.channel = last.channel
  placed : ∀ call ∈ s.calls, ∀ conversation, call.item.conversation? = some conversation →
    s.streamChannel conversation = place call
  once : (s.calls.filterMap fun call => call.item.conversation?).Nodup

theorem callers_init : Callers config ({} : Hub C) where
  blocks _ _ h := by cases h
  placed _ h := by cases h
  once := List.nodup_nil

omit [DecidableEq C] in
theorem conversation_of_stream {number : Nat} {channel : String} {item : Item C} {conversation : C}
    (h : Entry.stream? config ⟨number, channel, item⟩ = some conversation) :
    item.conversation? = some conversation := by
  cases item with
  | streamClose closed => exact h
  | routed out =>
      obtain ⟨content, source, outConversation⟩ := out
      cases content with
      | streamDelta delta =>
          simp only [Entry.stream?] at h
          split at h
          · exact h
          · cases h
      | _ => simp [Entry.stream?] at h

/-- A call of a stream that has no other call starts to wait. -/
theorem Callers.push (h : s.Callers config) {t : Hub C} (call : Call C) {conversation : C}
    (hcalls : t.calls = s.calls ++ [call]) (haccepted : t.accepted = s.accepted)
    (hstream : call.item.conversation? = some conversation)
    (hnew : ∀ other ∈ s.calls, other.item.conversation? ≠ some conversation)
    (hothers : ∀ other, other ≠ conversation → t.streamChannel other = s.streamChannel other)
    (hplace : t.streamChannel conversation = place call)
    (hchannel : ∀ last, (streamOf config conversation s.accepted).getLast? = some last →
      last.isClose = false → call.channel = last.channel) : t.Callers config := by
  refine ⟨?_, ?_, ?_⟩
  · rw [haccepted, hcalls]
    intro other last hlast hdelta
    by_cases hsame : other = conversation
    · subst hsame
      have hchannel := hchannel last hlast hdelta
      rw [hplace, place]
      cases hitem : call.item with
      | routed out =>
          left
          rw [hchannel]
      | streamClose closed =>
          rw [hitem] at hstream
          cases hstream
          exact Or.inr ⟨call, List.mem_append_right _ (List.mem_singleton_self _), hitem, hchannel⟩
    · rw [hothers other hsame]
      rcases h.blocks other last hlast hdelta with hleft | ⟨close, hclose, hitem⟩
      · exact Or.inl hleft
      · exact Or.inr ⟨close, List.mem_append_left _ hclose, hitem⟩
  · rw [hcalls]
    intro other hother found hfound
    rcases List.mem_append.mp hother with hold | hlast
    · rw [hothers found fun hsame => hnew other hold (hsame ▸ hfound)]
      exact h.placed other hold found hfound
    · rw [List.mem_singleton.mp hlast] at hfound ⊢
      rw [hstream] at hfound
      cases hfound
      exact hplace
  · rw [hcalls, List.filterMap_append, List.nodup_append]
    refine ⟨h.once, ?_, ?_⟩
    · simp [hstream]
    · intro found hfound own hown hsame
      obtain ⟨other, hother, hconversation⟩ := List.mem_filterMap.mp hfound
      have hown : own = conversation := by simpa [hstream] using hown
      exact hnew other hother (hconversation.trans (by rw [hsame, hown]))

/-- A call of no stream starts to wait. -/
theorem Callers.pushOther (h : s.Callers config) {t : Hub C} (call : Call C)
    (hcalls : t.calls = s.calls ++ [call]) (haccepted : t.accepted = s.accepted)
    (hstream : call.item.conversation? = none) (hsame : t.streamChannel = s.streamChannel) :
    t.Callers config := by
  refine ⟨?_, ?_, ?_⟩
  · rw [haccepted, hcalls, hsame]
    intro conversation last hlast hdelta
    rcases h.blocks conversation last hlast hdelta with hleft | ⟨close, hclose, hitem⟩
    · exact Or.inl hleft
    · exact Or.inr ⟨close, List.mem_append_left _ hclose, hitem⟩
  · rw [hcalls, hsame]
    intro other hother found hfound
    rcases List.mem_append.mp hother with hold | hlast
    · exact h.placed other hold found hfound
    · rw [List.mem_singleton.mp hlast, hstream] at hfound
      cases hfound
  · rw [hcalls, List.filterMap_append]
    simpa [hstream] using h.once

/-- No other call has the stream of a call. -/
theorem Callers.alone (h : s.Callers config) {before after : List (Call C)} {call : Call C}
    (hcalls : s.calls = before ++ call :: after) {conversation : C}
    (hstream : call.item.conversation? = some conversation) {other : Call C}
    (hother : other ∈ before ++ after) : other.item.conversation? ≠ some conversation := by
  intro hsame
  have honce := h.once
  simp only [hcalls, List.filterMap_append, List.filterMap_cons, hstream] at honce
  have hmiddle := (List.perm_middle.nodup_iff.mp honce)
  apply (List.nodup_cons.mp hmiddle).1
  rw [← List.filterMap_append]
  exact List.mem_filterMap.mpr ⟨other, hother, hsame⟩

/-- The item of a call is on the channel of the open block of its stream. -/
theorem Callers.last (h : s.Callers config) {before after : List (Call C)} {call : Call C}
    (hcalls : s.calls = before ++ call :: after) {conversation : C}
    (hstream : call.item.conversation? = some conversation) {last : Entry C}
    (hlast : (streamOf config conversation s.accepted).getLast? = some last)
    (hdelta : last.isClose = false) : call.channel = last.channel := by
  have hcall : call ∈ s.calls := by
    rw [hcalls]
    exact List.mem_append_right _ List.mem_cons_self
  have hplaced := h.placed call hcall conversation hstream
  rcases h.blocks conversation last hlast hdelta with hleft | ⟨close, hclose, hitem, hchannel⟩
  · rw [hplaced, place] at hleft
    cases hitem : call.item with
    | routed out =>
        rw [hitem] at hleft
        exact Option.some.inj hleft
    | streamClose closed =>
        rw [hitem] at hleft
        cases hleft
  · rw [hcalls, List.mem_append, List.mem_cons] at hclose
    have hconversation : close.item.conversation? = some conversation := by
      rw [hitem]
      rfl
    rcases hclose with hbefore | rfl | hafter
    · exact absurd hconversation (h.alone hcalls hstream (List.mem_append_left _ hbefore))
    · exact hchannel
    · exact absurd hconversation (h.alone hcalls hstream (List.mem_append_right _ hafter))

omit [DecidableEq C] in
theorem sublist_calls {calls before after : List (Call C)} {call : Call C}
    (h : calls = before ++ call :: after) : (before ++ after).Sublist calls := by
  rw [h]
  exact (List.Sublist.refl before).append (List.sublist_cons_self call after)

/-- A call that waited has put its item. -/
theorem Callers.settle (h : s.Callers config) {before after : List (Call C)} {call : Call C}
    (hcalls : s.calls = before ++ call :: after) {t : Hub C} (hcalls' : t.calls = before ++ after)
    (number : Nat) (haccepted : t.accepted = s.accepted ++ [⟨number, call.channel, call.item⟩])
    (hsame : t.streamChannel = s.streamChannel) : t.Callers config := by
  refine ⟨?_, ?_, ?_⟩
  · rw [haccepted, hcalls', hsame]
    intro conversation last hlast hdelta
    rw [streamOf_concat] at hlast
    split at hlast
    · next hstream =>
        -- The item is the last one of its stream now.
        rw [List.getLast?_concat] at hlast
        cases hlast
        have hcall : call ∈ s.calls := by
          rw [hcalls]
          exact List.mem_append_right _ List.mem_cons_self
        have hplaced := h.placed call hcall conversation (conversation_of_stream hstream)
        rw [hplaced, place]
        cases hitem : call.item with
        | routed out => exact Or.inl rfl
        | streamClose closed =>
            rw [Entry.isClose, hitem] at hdelta
            cases hdelta
    · next hstream =>
        rcases h.blocks conversation last hlast hdelta with hleft | ⟨close, hclose, hitem, hchannel⟩
        · exact Or.inl hleft
        · refine Or.inr ⟨close, ?_, hitem, hchannel⟩
          rw [hcalls, List.mem_append, List.mem_cons] at hclose
          rcases hclose with hbefore | rfl | hafter
          · exact List.mem_append_left _ hbefore
          · exact absurd (by rw [Entry.stream?, hitem]) hstream
          · exact List.mem_append_right _ hafter
  · rw [hcalls', hsame]
    exact fun other hother => h.placed other ((sublist_calls hcalls).subset hother)
  · rw [hcalls']
    exact h.once.sublist ((sublist_calls hcalls).filterMap _)

/-- The caller of a put was cancelled. -/
theorem Callers.dropRouted (h : s.Callers config) {before after : List (Call C)} {call : Call C}
    (hcalls : s.calls = before ++ call :: after) {out : Routed C} (hitem : call.item = .routed out)
    {t : Hub C} (hcalls' : t.calls = before ++ after) (haccepted : t.accepted = s.accepted)
    (hsame : t.streamChannel = s.streamChannel) : t.Callers config := by
  refine ⟨?_, ?_, ?_⟩
  · rw [haccepted, hcalls', hsame]
    intro conversation last hlast hdelta
    rcases h.blocks conversation last hlast hdelta with hleft | ⟨close, hclose, hclosed, hchannel⟩
    · exact Or.inl hleft
    · refine Or.inr ⟨close, ?_, hclosed, hchannel⟩
      rw [hcalls, List.mem_append, List.mem_cons] at hclose
      rcases hclose with hbefore | rfl | hafter
      · exact List.mem_append_left _ hbefore
      · rw [hitem] at hclosed
        cases hclosed
      · exact List.mem_append_right _ hafter
  · rw [hcalls', hsame]
    exact fun other hother => h.placed other ((sublist_calls hcalls).subset hother)
  · rw [hcalls']
    exact h.once.sublist ((sublist_calls hcalls).filterMap _)

/-- The caller of a close was cancelled, and the channel of its stream is recorded again. -/
theorem Callers.dropClose (h : s.Callers config) {before after : List (Call C)} {call : Call C}
    (hcalls : s.calls = before ++ call :: after) {conversation : C}
    (hitem : call.item = .streamClose conversation) {t : Hub C}
    (hcalls' : t.calls = before ++ after) (haccepted : t.accepted = s.accepted)
    (hothers : ∀ other, other ≠ conversation → t.streamChannel other = s.streamChannel other)
    (hrecorded : t.streamChannel conversation =
      some ((s.streamChannel conversation).getD call.channel)) : t.Callers config := by
  have hcall : call ∈ s.calls := by
    rw [hcalls]
    exact List.mem_append_right _ List.mem_cons_self
  have hstream : call.item.conversation? = some conversation := by
    rw [hitem]
    rfl
  have hrecorded : t.streamChannel conversation = some call.channel := by
    rw [hrecorded, h.placed call hcall conversation hstream, place, hitem]
    rfl
  refine ⟨?_, ?_, ?_⟩
  · rw [haccepted, hcalls']
    intro other last hlast hdelta
    by_cases hsame : other = conversation
    · subst hsame
      left
      rw [hrecorded, h.last hcalls hstream hlast hdelta]
    · rw [hothers other hsame]
      rcases h.blocks other last hlast hdelta with hleft | ⟨close, hclose, hclosed, hchannel⟩
      · exact Or.inl hleft
      · refine Or.inr ⟨close, ?_, hclosed, hchannel⟩
        rw [hcalls, List.mem_append, List.mem_cons] at hclose
        rcases hclose with hbefore | rfl | hafter
        · exact List.mem_append_left _ hbefore
        · rw [hitem] at hclosed
          cases hclosed
          exact absurd rfl hsame
        · exact List.mem_append_right _ hafter
  · rw [hcalls']
    intro other hother found hfound
    rw [hothers found fun hsame => h.alone hcalls hstream hother (hsame ▸ hfound)]
    exact h.placed other ((sublist_calls hcalls).subset hother) found hfound
  · rw [hcalls']
    exact h.once.sublist ((sublist_calls hcalls).filterMap _)

omit [DecidableEq C] in
/-- The call that is found is the one that is taken out. -/
theorem withoutCall_calls {id : Nat} {call : Call C}
    (h : s.calls.find? (fun call => call.id = id) = some call) :
    ∃ before after, s.calls = before ++ call :: after ∧
      (s.withoutCall id).calls = before ++ after := by
  obtain ⟨hid, before, after, hsplit, hbefore⟩ := List.find?_eq_some_iff_append.mp h
  refine ⟨before, after, hsplit, ?_⟩
  show s.calls.eraseP _ = _
  rw [hsplit, List.eraseP_append_right,
    List.eraseP_cons_of_pos (p := fun call : Call C => decide (call.id = id)) hid]
  intro other hother
  simpa using hbefore other hother

/-! ## Runs -/

/-- What holds of a hub that is not closed, besides its books. -/
structure Flows (config : HubConfig) (s : Hub C) : Prop where
  served : s.Served config
  callers : s.Callers config

theorem Moves.flows {t : Hub C} (h : s.Moves t) (hflows : s.Flows config) : t.Flows config := by
  refine ⟨hflows.served.same h.queues h.tables, ?_⟩
  refine ⟨?_, ?_, ?_⟩
  · rw [h.tables.1, h.calls.1, h.calls.2.1]
    exact hflows.callers.blocks
  · rw [h.calls.1, h.calls.2.1]
    exact hflows.callers.placed
  · rw [h.calls.1]
    exact hflows.callers.once

/-- A put that waited, or that did not have to. -/
theorem flows_put (h : s.Ok config) (hserved : s.Served config) {waiting : Hub C}
    (hcallers : waiting.Callers config) {before after : List (Call C)} (call : Call C)
    (hcalls : waiting.calls = before ++ call :: after) (hcalls' : s.calls = before ++ after)
    (haccepted : waiting.accepted = s.accepted)
    (hstreams : waiting.streamChannel = s.streamChannel) (hopen : s.closed = false) :
    (s.put call.channel call.item).1.Flows config := by
  rw [Hub.put, hopen]
  refine ⟨hserved.putNowait h call.channel call.item ?_, ?_⟩
  · intro conversation last hstream hlast hdelta
    rw [← haccepted] at hlast
    exact hcallers.last hcalls (conversation_of_stream hstream) hlast hdelta
  · refine hcallers.settle hcalls hcalls' s.accepted.length ?_ hstreams.symm
    rw [haccepted]
    rfl

theorem flows_startPut (h : s.Ok config) (hserved : s.Served config) {channel : String}
    {item : Item C} (hcallers : (s.suspend channel item).Callers config)
    (hopen : s.closed = false) : (s.startPut channel item).1.Flows config := by
  rw [Hub.startPut]
  split
  · exact ⟨hserved.same (fun _ => rfl) ⟨rfl, rfl, rfl, rfl⟩, hcallers⟩
  · exact flows_put h hserved hcallers { id := s.called, channel, item } rfl
      (List.append_nil _).symm rfl rfl hopen

theorem prepare_shape (s : Hub C) (out : Deliverable C) (channel : String) :
    (∀ other, ((s.prepare out channel).box other).queue = (s.box other).queue) ∧
      (s.prepare out channel).calls = s.calls ∧ (s.prepare out channel).accepted = s.accepted ∧
      (s.prepare out channel).taken = s.taken ∧ (s.prepare out channel).chunks = s.chunks ∧
      (s.prepare out channel).openStreams = s.openStreams ∧
      (s.prepare out channel).closed = s.closed := by
  have hopened : ∀ (t : Hub C) other, ((t.openChannel channel).box other).queue =
      (t.box other).queue := by
    intro t other
    have hmoves : t.Moves (t.setBox channel (t.box channel).wake) := moves_setBox t channel rfl
    exact hmoves.queues other
  rw [Hub.prepare]
  split
  · exact ⟨hopened (s.recordChannel out.conversation channel), rfl, rfl, rfl, rfl, rfl, rfl⟩
  · exact ⟨hopened s, rfl, rfl, rfl, rfl, rfl, rfl⟩

theorem flows_dispatch (h : s.Ok config) (hflows : s.Flows config) (out : Deliverable C)
    (hsequential : s.Sequential (.dispatch out)) (hopen : s.closed = false) :
    (s.dispatch config out).1.Flows config := by
  rw [Hub.dispatch, hopen]
  simp only [Bool.false_eq_true, if_false]
  split
  · exact hflows
  · next source hsource =>
      split
      · exact hflows
      · obtain ⟨hqueues, hcalls, haccepted, htaken, hchunks, hopens, hclosed⟩ :=
          prepare_shape s out source.channel
        have hserved := hflows.served.same hqueues ⟨haccepted, htaken, hchunks, hopens⟩
        apply flows_startPut (h.prepare out source.channel) hserved _ (hclosed.trans hopen)
        cases hcontent : out.content with
        | streamDelta delta =>
            simp only [Sequential, hcontent, hsource] at hsequential
            obtain ⟨hnew, hchannel⟩ := hsequential
            have hrecorded : (s.prepare out source.channel).streamChannel =
                (s.recordChannel out.conversation source.channel).streamChannel := by
              rw [Hub.prepare, hcontent]
              rfl
            have hplace : (s.recordChannel out.conversation source.channel).streamChannel
                out.conversation = some source.channel := by
              rw [recordChannel_self]
              rcases hchannel with hnone | hsome
              · rw [hnone]
                rfl
              · rw [hsome]
                rfl
            refine hflows.callers.push ⟨_, source.channel, _⟩ (by rw [← hcalls]; rfl) haccepted rfl
              hnew ?_ ?_ ?_
            · intro other hother
              show (s.prepare out source.channel).streamChannel other = _
              rw [hrecorded]
              exact recordChannel_of_ne s hother source.channel
            · show (s.prepare out source.channel).streamChannel out.conversation = _
              rw [hrecorded]
              exact hplace
            · intro last hlast hdelta
              rcases hflows.callers.blocks out.conversation last hlast hdelta with
                hleft | ⟨close, hclose, hitem, -⟩
              · rcases hchannel with hnone | hsome
                · rw [hnone] at hleft
                  cases hleft
                · rw [hsome] at hleft
                  exact Option.some.inj hleft
              · exact absurd (by rw [hitem]; rfl) (hnew close hclose)
        | _ =>
            have hsame : (s.prepare out source.channel).streamChannel = s.streamChannel := by
              rw [Hub.prepare, hcontent]
              rfl
            exact hflows.callers.pushOther ⟨_, source.channel, _⟩ (by rw [← hcalls]; rfl) haccepted
              rfl hsame

theorem flows_closeStream (h : s.Ok config) (hknown : s.Known) (hflows : s.Flows config)
    (conversation : C) (hsequential : s.Sequential (.closeStream conversation))
    (hopen : s.closed = false) : (s.closeStream conversation).1.Flows config := by
  have hnew : ∀ call ∈ s.calls, call.item.conversation? ≠ some conversation := hsequential
  rw [Hub.closeStream, hopen]
  simp only [Bool.false_eq_true, if_false]
  split
  · exact hflows
  · next channel hchannel =>
      rw [if_pos (hknown.streams conversation channel hchannel)]
      have hforgotten : (s.forgetChannel conversation).Ok config := h
      have hserved : (s.forgetChannel conversation).Served config :=
        hflows.served.same (fun _ => rfl) ⟨rfl, rfl, rfl, rfl⟩
      apply flows_startPut hforgotten hserved _ hopen
      refine hflows.callers.push ⟨_, channel, _⟩ rfl rfl rfl hnew ?_ ?_ ?_
      · exact fun other hother => Function.update_of_ne hother _ _
      · exact Function.update_self _ _ _
      · intro last hlast hdelta
        rcases hflows.callers.blocks conversation last hlast hdelta with
          hleft | ⟨close, hclose, hitem, -⟩
        · rw [hchannel] at hleft
          exact Option.some.inj hleft
        · exact absurd (by rw [hitem]; rfl) (hnew close hclose)

theorem flows_resume (h : s.Ok config) (hflows : s.Flows config) (id : Nat)
    (hopen : s.closed = false) : (s.resume id).1.Flows config := by
  rw [Hub.resume]
  split
  · exact hflows
  · next call hcall =>
      split
      · exact hflows
      · obtain ⟨before, after, hcalls, hcalls'⟩ := withoutCall_calls hcall
        have hwithout : (s.withoutCall id).Ok config := h
        have hserved : (s.withoutCall id).Served config :=
          hflows.served.same (fun _ => rfl) ⟨rfl, rfl, rfl, rfl⟩
        exact flows_put hwithout hserved hflows.callers call hcalls hcalls' rfl rfl hopen

theorem flows_cancelCall (hflows : s.Flows config) (id : Nat) (hopen : s.closed = false) :
    (s.cancelCall id).Flows config := by
  rw [Hub.cancelCall]
  split
  · exact hflows
  · next call hcall =>
      obtain ⟨before, after, hcalls, hcalls'⟩ := withoutCall_calls hcall
      have hserved : (s.withoutCall id).Served config :=
        hflows.served.same (fun _ => rfl) ⟨rfl, rfl, rfl, rfl⟩
      split
      · next out hitem =>
          exact ⟨hserved, hflows.callers.dropRouted hcalls hitem hcalls' rfl rfl⟩
      · next conversation hitem =>
          rw [hopen]
          refine ⟨hserved.same (fun _ => rfl) ⟨rfl, rfl, rfl, rfl⟩, ?_⟩
          refine hflows.callers.dropClose hcalls hitem hcalls' rfl ?_ ?_
          · exact fun other hother => recordChannel_of_ne (s.withoutCall id) hother call.channel
          · exact recordChannel_self (s.withoutCall id) conversation call.channel

/-- A hub that is closed stays so. -/
theorem open_of_step {i : HubStep C} (h : (s.step config i).1.closed = false) :
    s.closed = false := by
  cases hclosed : s.closed with
  | false => rfl
  | true =>
      have hkept : (s.step config i).1.closed = true := by
        cases i with
        | dispatch out =>
            show (s.dispatch config out).1.closed = true
            rw [Hub.dispatch, hclosed]
            exact hclosed
        | closeStream conversation =>
            show (s.closeStream conversation).1.closed = true
            rw [Hub.closeStream, hclosed]
            exact hclosed
        | resume id =>
            show (s.resume id).1.closed = true
            rw [Hub.resume]
            split
            · exact hclosed
            · split
              · exact hclosed
              · rw [Hub.put]
                split <;> exact hclosed
        | cancelCall id =>
            show (s.cancelCall id).closed = true
            rw [Hub.cancelCall]
            split
            · exact hclosed
            · split
              · exact hclosed
              · split <;> exact hclosed
        | waitIdle channel => exact (waitIdle_moves s channel).1.closed.trans hclosed
        | cancelWait channel id => exact hclosed
        | get channel =>
            show (s.get config channel).closed = true
            rw [Hub.get]
            split
            · next entry rest hidle hqueue =>
                exact (process_processed config (s.take channel entry rest) channel
                  entry).rest.2.1.trans hclosed
            · exact hclosed
        | outletDone channel outletEnd =>
            exact (outletDone_moves s channel outletEnd).1.closed.trans hclosed
        | retry channel => exact (retry_moves s channel).1.closed.trans hclosed
        | stop channel => exact (stop_moves s channel).1.closed.trans hclosed
        | aclose => rfl
        | cancelWorkers =>
            show (Hub.cancelWorkers s).closed = true
            rw [Hub.cancelWorkers, if_pos hclosed]
            exact hclosed
        | finishClose =>
            show (Hub.finishClose s).closed = true
            rw [Hub.finishClose]
            split <;> exact hclosed
      rw [hkept] at h
      cases h

structure Sound (config : HubConfig) (s : Hub C) : Prop where
  ok : s.Ok config
  known : s.Known
  flows : s.closed = false → s.Flows config

theorem sound_init : Sound config ({} : Hub C) :=
  ⟨ok_init, known_init, fun _ => ⟨served_init, callers_init⟩⟩

theorem Sound.step (h : s.Sound config) (i : HubStep C) (hsequential : s.Sequential i)
    (horder : s.TakesInOrder config i) : (s.step config i).1.Sound config := by
  refine ⟨h.ok.step i, h.known.step i, ?_⟩
  intro hopen'
  have hopen := open_of_step hopen'
  have hflows := h.flows hopen
  cases i with
  | dispatch out => exact flows_dispatch h.ok hflows out hsequential hopen
  | closeStream conversation =>
      exact flows_closeStream h.ok h.known hflows conversation hsequential hopen
  | resume id => exact flows_resume h.ok hflows id hopen
  | cancelCall id => exact flows_cancelCall hflows id hopen
  | waitIdle channel => exact (waitIdle_moves s channel).1.flows hflows
  | cancelWait channel id => exact (cancelWait_moves s channel id).flows hflows
  | get channel =>
      refine ⟨hflows.served.get h.ok h.known horder, ?_⟩
      show (s.get config channel).Callers config
      rw [Hub.get]
      split
      · next entry rest hidle hqueue =>
          obtain ⟨haccepted, -, -, -, hcalls, hstreams, -⟩ :=
            (process_processed config (s.take channel entry rest) channel entry).rest
          refine ⟨?_, ?_, ?_⟩
          · rw [haccepted, hcalls, hstreams]
            exact hflows.callers.blocks
          · rw [hcalls, hstreams]
            exact hflows.callers.placed
          · rw [hcalls]
            exact hflows.callers.once
      · exact hflows.callers
  | outletDone channel outletEnd => exact (outletDone_moves s channel outletEnd).1.flows hflows
  | retry channel => exact (retry_moves s channel).1.flows hflows
  | stop channel => exact (stop_moves s channel).1.flows hflows
  | aclose => cases hopen'
  | cancelWorkers =>
      show (Hub.cancelWorkers s).Flows config
      rw [Hub.cancelWorkers, hopen]
      exact hflows
  | finishClose =>
      have hclosing : s.closing ≠ true := by
        intro hclosing
        rw [h.ok.sealed hclosing] at hopen
        cases hopen
      show (Hub.finishClose s).Flows config
      rw [Hub.finishClose, if_neg fun hend => hclosing hend.1]
      exact hflows

theorem handled_eq (h : s.Ok config) (hserved : s.Served config) (conversation : C) :
    s.handled config conversation = streamOf config conversation s.taken := by
  obtain ⟨behind, hsplit⟩ := hserved.inOrder conversation
  have hsorted : (streamOf config conversation s.accepted).Pairwise
      fun first second => first.number < second.number := h.sorted.sublist List.filter_sublist
  rw [← hsplit] at hsorted
  rw [handled, ← hsplit, List.filter_append, List.filter_eq_self.mpr, List.filter_eq_nil_iff.mpr,
    List.append_nil]
  · intro entry hentry htaken
    have hstream : entry ∈ streamOf config conversation s.accepted := by
      rw [← hsplit]
      exact List.mem_append_right _ hentry
    have hmem := mem_streamOf.mpr ⟨of_decide_eq_true htaken, (mem_streamOf.mp hstream).2⟩
    exact Nat.lt_irrefl _ ((List.pairwise_append.mp hsorted).2.2 entry hmem entry hentry)
  · intro entry hentry
    exact decide_eq_true (mem_streamOf.mp hentry).1

/-! ## What the hub promises -/

/-- Each outlet processes its items in the order of their puts, attempts none too often, and
counts what is unfinished. -/
def Accounted (config : HubConfig) (s : Hub C) : Prop :=
  ∀ channel,
    (s.box channel).accepted = (s.accepted.filter fun entry => entry.channel = channel) ∧
      (s.box channel).accepted = (s.box channel).finished ++
        ((s.box channel).worker.entry?.toList ++
          ((s.box channel).drained ++ (s.box channel).queue)) ∧
      (∀ number, (s.box channel).attempts.count number ≤ (config.sendMaxRetries + 1).toNat) ∧
      (s.box channel).unfinished =
        (s.box channel).queue.length + (s.box channel).worker.entry?.toList.length ∧
      ((s.box channel).unfinished = 0 ↔
        (s.box channel).accepted = (s.box channel).finished ++ (s.box channel).drained)

/-- A call of `wait_idle` returns in the very step after which its channel has nothing
unfinished, unless it is cancelled. -/
def WaitsExactly (config : HubConfig) (s : Hub C) : Prop :=
  (∀ channel, (s.waitIdle channel).2 = .returned ↔ (s.box channel).unfinished = 0) ∧
    ∀ i channel id, id ∈ (s.box channel).waiters → i ≠ .cancelWait channel id →
      (id ∉ ((s.step config i).1.box channel).waiters ↔
        ((s.step config i).1.box channel).unfinished = 0)

omit [DecidableEq C] in
theorem Ok.accounted (h : s.Ok config) : s.Accounted config := by
  intro channel
  have hholds := (h.boxes channel).holds
  refine ⟨h.split channel, hholds.order, hholds.bounded, hholds.unfinished, ?_⟩
  have horder := hholds.order
  constructor
  · intro hnone
    have hcount := hholds.unfinished
    rw [hnone] at hcount
    have hqueue : (s.box channel).queue = [] := List.length_eq_zero_iff.mp (by omega)
    have hhand : (s.box channel).worker.entry?.toList = [] :=
      List.length_eq_zero_iff.mp (by omega)
    rw [hqueue, hhand, List.append_nil, List.nil_append] at horder
    exact horder
  · intro hall
    rw [hall] at horder
    have hlength := congrArg List.length horder
    simp only [List.length_append] at hlength
    rw [hholds.unfinished]
    omega

theorem Ok.waitsExactly (h : s.Ok config) (hknown : s.Known) : s.WaitsExactly config := by
  constructor
  · intro channel
    have hnew : channel ∉ s.channels → (s.box channel).unfinished = 0 := by
      intro hunknown
      have hnone : (s.box channel).accepted = [] := by
        rw [h.split channel, List.filter_eq_nil_iff]
        intro entry hentry hsame
        rw [decide_eq_true_eq] at hsame
        exact hunknown (hsame ▸ hknown.accepted entry hentry)
      refine (h.accounted channel).2.2.2.2.mpr ?_
      have horder := (h.boxes channel).holds.order
      rw [hnone] at horder ⊢
      simp only [List.nil_eq, List.append_eq_nil_iff] at horder
      rw [horder.1, horder.2.2.1]
      rfl
    simp only [Hub.waitIdle]
    split
    · next hidle => exact ⟨fun _ => hidle.elim hnew id, fun _ => rfl⟩
    · next hbusy =>
        refine ⟨fun hanswer => (by cases hanswer), fun hnone => absurd (Or.inr hnone) hbusy⟩
  · intro i channel id hid hcancel
    have hwaits := ((h.step i).boxes channel).holds.waits
    constructor
    · intro hgone
      by_cases hother : ∃ otherChannel other, i = .cancelWait otherChannel other
      · obtain ⟨otherChannel, other, rfl⟩ := hother
        refine absurd ?_ hgone
        show id ∈ ((s.cancelWait otherChannel other).box channel).waiters
        by_cases hsame : channel = otherChannel
        · subst hsame
          have hbox : (s.cancelWait channel other).box channel = { s.box channel with
              waiters := (s.box channel).waiters.filter fun waiter => waiter ≠ other } :=
            Function.update_self _ _ _
          rw [hbox]
          refine List.mem_filter.mpr ⟨hid, decide_eq_true ?_⟩
          rintro rfl
          exact hcancel rfl
        · have hbox : (s.cancelWait otherChannel other).box channel = s.box channel :=
            Function.update_of_ne hsame _ _
          rw [hbox]
          exact hid
      · have hawaits := step_awaits config s i
          (fun otherChannel other hsame => hother ⟨otherChannel, other, hsame⟩)
        exact (hawaits channel id hid).resolve_left hgone
    · intro hnone hmem
      exact hwaits (List.ne_nil_of_mem hmem) hnone

/-- The books are right in every state.  As long as the items of a stream are taken in the
order of their puts, every stream gets the chunks that its items call for. -/
theorem deliveries_accounted_and_bracketed (config : HubConfig) (is : List (HubStep C))
    (hsequential : (hubMachine C config).Along Sequential {} is) :
    (∀ before, before <+: is → ((hubMachine C config).run {} before).Accounted config ∧
      ((hubMachine C config).run {} before).WaitsExactly config) ∧
    ((hubMachine C config).Along (TakesInOrder config) {} is → ∀ before, before <+: is →
      ((hubMachine C config).run {} before).closed = false →
        ((hubMachine C config).run {} before).StreamsServed config ∧
          ∀ conversation, Bracketed false
            ((((hubMachine C config).run {} before).chunks.filter fun chunk =>
              chunk.conversation = conversation).map Chunk.done)) := by
  constructor
  · intro before _
    have hknown : ((hubMachine C config).run {} before).Known :=
      Machine.run_preserves (m := hubMachine C config) (P := Known) (fun _ i h => h.step i) before
        known_init
    exact ⟨(ok_run before).accounted, (ok_run before).waitsExactly hknown⟩
  · rintro horder before ⟨after, rfl⟩ hopen
    have hboth : (hubMachine C config).Along
        (fun s i => s.Sequential i ∧ s.TakesInOrder config i) {} before :=
      Machine.along_and.mpr
        ⟨(Machine.along_append.mp hsequential).1, (Machine.along_append.mp horder).1⟩
    have hsound : ((hubMachine C config).run {} before).Sound config :=
      Machine.run_invariant (m := hubMachine C config) (P := Sound config)
        (fun s i h hstep => h.step i hstep.1 hstep.2) sound_init hboth
    have hflows := hsound.flows hopen
    have hserved : ((hubMachine C config).run {} before).StreamsServed config := by
      intro conversation
      rw [handled_eq hsound.ok hflows.served conversation]
      exact hflows.served.chunks conversation
    refine ⟨hserved, ?_⟩
    intro conversation
    rw [hserved conversation]
    exact bracketed_chunks _ none

def allStream : HubConfig where
  outlets _ := some true

/-- One delta of a conversation on a channel. -/
def oneDelta (channel : String) : Deliverable Nat where
  content := .streamDelta "hello"
  source := some ⟨channel, "chat"⟩
  conversation := 0

/-- A stream on one channel. -/
def oneStream : List (HubStep Nat) :=
  [.dispatch (oneDelta "feishu"), .get "feishu", .outletDone "feishu" .returned, .closeStream 0,
    .get "feishu"]

theorem oneStream_accounted_and_bracketed :
    ((hubMachine Nat allStream).run {} oneStream).chunks.map Chunk.done = [false, true] ∧
      ((hubMachine Nat allStream).run {} oneStream).StreamsServed allStream := by
  have hsequential : (hubMachine Nat allStream).Along Sequential {} oneStream :=
    ⟨⟨by decide, Or.inl rfl⟩, trivial, trivial, by unfold Sequential; decide +kernel, trivial,
      trivial⟩
  have horder : (hubMachine Nat allStream).Along (TakesInOrder allStream) {} oneStream :=
    ⟨trivial, by unfold TakesInOrder; decide +kernel, trivial, trivial,
      by unfold TakesInOrder; decide +kernel, trivial⟩
  refine ⟨by decide +kernel, ?_⟩
  exact ((deliveries_accounted_and_bracketed allStream oneStream hsequential).2 horder oneStream
    (List.prefix_refl _) rfl).1

/-- A conversation moves to another channel while the first outlet is still sending. -/
def movedStream : List (HubStep Nat) :=
  [.dispatch (oneDelta "feishu"), .get "feishu", .closeStream 0, .dispatch (oneDelta "repl"),
    .get "repl", .outletDone "repl" .returned, .outletDone "feishu" .returned, .get "feishu",
    .outletDone "feishu" .returned, .closeStream 0, .get "repl"]

/-- Both streams are closed and everything is processed, but the second one got no end. -/
theorem movedStream_not_closed :
    (hubMachine Nat allStream).Along Sequential {} movedStream ∧
      (hubMachine Nat allStream).outs {} movedStream = List.replicate 11 .returned ∧
      (((hubMachine Nat allStream).run {} movedStream).box "feishu").unfinished = 0 ∧
      (((hubMachine Nat allStream).run {} movedStream).box "repl").unfinished = 0 ∧
      (((hubMachine Nat allStream).run {} movedStream).chunks.map fun chunk =>
        (chunk.channel, chunk.done)) = [("feishu", false), ("repl", false), ("feishu", true)] ∧
      ¬((hubMachine Nat allStream).run {} movedStream).StreamsServed allStream := by
  refine ⟨?_, by decide +kernel, by decide +kernel, by decide +kernel, by decide +kernel, ?_⟩
  · exact ⟨⟨by decide, Or.inl rfl⟩, trivial, by unfold Sequential; decide +kernel,
      ⟨by decide +kernel, Or.inl rfl⟩, trivial, trivial, trivial, trivial, trivial,
      by unfold Sequential; decide +kernel, trivial, trivial⟩
  · intro hserved
    exact absurd (hserved 0) (by decide +kernel)

end Hub
end Pico
end CodeCub
