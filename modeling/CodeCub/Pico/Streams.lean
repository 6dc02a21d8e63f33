import CodeCub.Pico.Waiting

/-!
# The streams of conversations

The chunks that a conversation is owed follow from its deltas and closes in the order in
which they were put: every delta is a chunk, and a close ends the stream if there was a
delta.  The hub keeps one table of open streams for all channels, under the name of the
conversation.  As long as the items of a conversation are taken in the order of their puts,
the table is what it should be and the chunks are those that are owed.  A conversation
that moves to another channel can break that order, because the workers do not wait for
each other.
-/

namespace CodeCub
namespace Pico

variable {C : Type}

/-- The stream that an item of a call belongs to. -/
def Item.conversation? : Item C → Option C
  | .streamClose conversation => some conversation
  | .routed out =>
      match out.content with
      | .streamDelta _ => some out.conversation
      | _ => none

namespace Entry

def isClose (entry : Entry C) : Bool := entry.item matches .streamClose _

/-- The stream that an item matters to; an outlet that takes no chunks skips deltas. -/
def stream? (config : HubConfig) (entry : Entry C) : Option C :=
  match entry.item with
  | .streamClose conversation => some conversation
  | .routed out =>
      match out.content with
      | .streamDelta _ =>
          if Hub.streaming config entry.channel then some out.conversation else none
      | _ => none

end Entry

/-- The chunks of one stream: the state is the chat of the open stream. -/
def streamMachine (C : Type) : Machine (Option String) (Entry C) (List (Chunk C)) where
  step chat entry :=
    match entry.item with
    | .streamClose conversation =>
        match chat with
        | none => (none, [])
        | some chatId =>
            (none, [{ channel := entry.channel, chatId, conversation, delta := "", done := true }])
    | .routed out =>
        match out.content with
        | .streamDelta delta =>
            (some (chat.getD out.source.chatId),
              [{ channel := entry.channel, chatId := out.source.chatId
                 conversation := out.conversation, delta, done := false }])
        | _ => (chat, [])

/-- No two ends of a stream without a chunk between them, and none at the beginning. -/
def Bracketed : Bool → List Bool → Prop
  | _, [] => True
  | _, false :: rest => Bracketed true rest
  | true, true :: rest => Bracketed false rest
  | false, true :: _ => False

theorem bracketed_chunks (entries : List (Entry C)) (chat : Option String) :
    Bracketed chat.isSome
      (((streamMachine C).outs chat entries).flatten.map Chunk.done) := by
  induction entries generalizing chat with
  | nil => trivial
  | cons entry rest ih =>
      obtain ⟨number, channel, item⟩ := entry
      cases item with
      | streamClose conversation =>
          cases chat with
          | none => exact ih none
          | some chatId => exact ih none
      | routed out =>
          obtain ⟨content, source, conversation⟩ := out
          cases content with
          | streamDelta delta => exact ih (some (chat.getD source.chatId))
          | _ => exact ih chat

namespace Hub

variable [DecidableEq C] (config : HubConfig)

def streamOf (conversation : C) (entries : List (Entry C)) : List (Entry C) :=
  entries.filter fun entry => entry.stream? config = some conversation

/-- The items of the stream that have been taken, in the order of their puts. -/
def handled (s : Hub C) (conversation : C) : List (Entry C) :=
  (streamOf config conversation s.accepted).filter fun entry => entry ∈ s.taken

/-- The chunks that were sent are those that the items call for. -/
def StreamsServed (s : Hub C) : Prop :=
  ∀ conversation, (s.chunks.filter fun chunk => chunk.conversation = conversation) =
    ((streamMachine C).outs none (s.handled config conversation)).flatten

/-- The calls for a stream are sequential, and use one channel between two closes. -/
def Sequential (s : Hub C) : HubStep C → Prop
  | .dispatch out =>
      match out.content, out.source with
      | .streamDelta _, some source =>
          (∀ call ∈ s.calls, call.item.conversation? ≠ some out.conversation) ∧
            (s.streamChannel out.conversation = none ∨
              s.streamChannel out.conversation = some source.channel)
      | _, _ => True
  | .closeStream conversation =>
      ∀ call ∈ s.calls, call.item.conversation? ≠ some conversation
  | _ => True

/-- A worker takes an item of a stream when no earlier one waits on another channel. -/
def TakesInOrder (s : Hub C) : HubStep C → Prop
  | .get channel =>
      ∀ entry ∈ (s.box channel).queue.head?, ∀ other ∈ s.channels,
        ∀ waiting ∈ (s.box other).queue, waiting.stream? config = entry.stream? config →
          (entry.stream? config).isSome = true → entry.number ≤ waiting.number
  | _ => True

/-! ## What a worker does to the streams -/

variable {config} {s : Hub C}

theorem stream_of_process {channel : String} {entry : Entry C} (hchannel : entry.channel = channel)
    {conversation : C} (hstream : entry.stream? config = some conversation)
    (hopen : entry.isClose = true → (s.openStreams conversation).isSome = true →
      streaming config channel = true) :
    (s.process config channel entry).openStreams = Function.update s.openStreams conversation
        ((streamMachine C).next (s.openStreams conversation) entry) ∧
      (s.process config channel entry).chunks =
        s.chunks ++ (streamMachine C).out (s.openStreams conversation) entry := by
  obtain ⟨number, entryChannel, item⟩ := entry
  subst hchannel
  cases item with
  | streamClose closed =>
      have hsame : closed = conversation := by simpa [Entry.stream?] using hstream
      subst hsame
      cases hchat : s.openStreams closed with
      | none =>
          refine ⟨?_, ?_⟩
          · have hkept : (s.process config entryChannel ⟨number, entryChannel, .streamClose closed⟩).openStreams =
                s.openStreams := by
              simp [Hub.process, Hub.closeStreamChunk, hchat, Hub.finish, Hub.setBox]
            rw [hkept]
            refine (Function.update_eq_self_iff.mpr ?_).symm
            exact hchat.symm
          · simp [Hub.process, Hub.closeStreamChunk, hchat, Hub.finish, Hub.setBox, Machine.out,
              streamMachine]
      | some chatId =>
          have hstreaming := hopen rfl (by rw [hchat]; rfl)
          simp [Hub.process, Hub.closeStreamChunk, hchat, hstreaming, Hub.sendChunk, Hub.setBox,
            Machine.out, Machine.next, streamMachine]
  | routed out =>
      obtain ⟨content, source, outConversation⟩ := out
      cases content with
      | streamDelta delta =>
          by_cases hstreaming : streaming config entryChannel = true
          · have hsame : outConversation = conversation := by
              simpa [Entry.stream?, hstreaming] using hstream
            subst hsame
            simp [Hub.process, Hub.streamChunk, hstreaming, Hub.sendChunk, Hub.setBox,
              Machine.out, Machine.next, streamMachine]
          · simp [Entry.stream?, hstreaming] at hstream
      | _ => simp [Entry.stream?] at hstream

/-- Other items leave the streams alone. -/
theorem no_stream_of_process {channel : String} {entry : Entry C}
    (hchannel : entry.channel = channel) (hstream : entry.stream? config = none) :
    (s.process config channel entry).openStreams = s.openStreams ∧
      (s.process config channel entry).chunks = s.chunks := by
  obtain ⟨number, entryChannel, item⟩ := entry
  subst hchannel
  cases item with
  | streamClose closed => simp [Entry.stream?] at hstream
  | routed out =>
      obtain ⟨content, source, outConversation⟩ := out
      cases content with
      | streamDelta delta =>
          by_cases hstreaming : streaming config entryChannel = true
          · simp [Entry.stream?, hstreaming] at hstream
          · simp [Hub.process, Hub.streamChunk, hstreaming, Hub.finish, Hub.setBox]
      | _ =>
          simp only [Hub.process, Hub.deliverWithRetry]
          split <;> exact ⟨rfl, rfl⟩

omit [DecidableEq C] in
theorem out_conversation {entry : Entry C} {conversation : C}
    (hstream : entry.stream? config = some conversation) (chat : Option String) :
    ∀ chunk ∈ (streamMachine C).out chat entry, chunk.conversation = conversation := by
  obtain ⟨number, channel, item⟩ := entry
  cases item with
  | streamClose closed =>
      have hsame : closed = conversation := by simpa [Entry.stream?] using hstream
      cases chat with
      | none => simp [Machine.out, streamMachine]
      | some chatId => simpa [Machine.out, streamMachine] using hsame
  | routed out =>
      obtain ⟨content, source, outConversation⟩ := out
      cases content with
      | streamDelta delta =>
          simp only [Entry.stream?] at hstream
          split at hstream
          · simpa [Machine.out, streamMachine] using hstream
          · cases hstream
      | _ => simp [Entry.stream?] at hstream

omit [DecidableEq C] in
/-- A stream is open after a delta on an outlet that takes chunks. -/
theorem open_stream {entries : List (Entry C)} {conversation : C}
    (hstream : ∀ entry ∈ entries, entry.stream? config = some conversation)
    (hopen : ((streamMachine C).run none entries).isSome = true) :
    ∃ before last, entries = before ++ [last] ∧ last.isClose = false ∧
      streaming config last.channel = true := by
  rcases List.eq_nil_or_concat entries with rfl | ⟨before, last, rfl⟩
  · cases hopen
  · rw [List.concat_eq_append] at hstream hopen ⊢
    refine ⟨before, last, rfl, ?_⟩
    have hlast := hstream last (List.mem_append_right _ (List.mem_singleton_self _))
    rw [Machine.run_append] at hopen
    obtain ⟨number, channel, item⟩ := last
    cases item with
    | streamClose closed =>
        cases hchat : (streamMachine C).run none before with
        | none =>
            rw [hchat] at hopen
            cases hopen
        | some chatId =>
            rw [hchat] at hopen
            cases hopen
    | routed out =>
        refine ⟨rfl, ?_⟩
        obtain ⟨content, source, outConversation⟩ := out
        cases content with
        | streamDelta delta =>
            simp only [Entry.stream?] at hlast
            split at hlast
            · assumption
            · cases hlast
        | _ => simp [Entry.stream?] at hlast

/-! ## The order of the items -/

/-- An item after a delta of its stream is on the same channel. -/
def Uniform (entries : List (Entry C)) : Prop :=
  ∀ before first second after, entries = before ++ first :: second :: after →
    first.isClose = false → second.channel = first.channel

omit [DecidableEq C] in
theorem Uniform.concat {entries : List (Entry C)} (h : Uniform entries) {entry : Entry C}
    (hlast : ∀ last, entries.getLast? = some last → last.isClose = false →
      entry.channel = last.channel) : Uniform (entries ++ [entry]) := by
  intro before first second after hsplit hfirst
  rcases List.eq_nil_or_concat after with rfl | ⟨rest, last, rfl⟩
  · have hinit : entries = before ++ [first] ∧ entry = second := by
      have hsame : entries ++ [entry] = (before ++ [first]) ++ [second] := by
        rw [hsplit, List.append_assoc]
        rfl
      exact List.append_inj' hsame rfl |>.imp_right fun htail => List.head_eq_of_cons_eq htail
    rw [← hinit.2]
    apply hlast first _ hfirst
    rw [hinit.1, List.getLast?_concat]
  · apply h before first second rest _ hfirst
    have hsame : entries ++ [entry] = (before ++ first :: second :: rest) ++ [last] := by
      rw [hsplit, List.concat_eq_append, List.append_assoc]
      rfl
    exact (List.append_inj' hsame rfl).1

/-- The workers have served the streams in the order of the puts. -/
structure Served (config : HubConfig) (s : Hub C) : Prop where
  known : s.taken ⊆ s.accepted
  waiting : ∀ entry ∈ s.accepted, entry ∉ s.taken → entry ∈ (s.box entry.channel).queue
  fresh : ∀ channel, ∀ entry ∈ (s.box channel).queue, entry ∉ s.taken
  inOrder : ∀ conversation,
    streamOf config conversation s.taken <+: streamOf config conversation s.accepted
  opens : ∀ conversation, s.openStreams conversation =
    (streamMachine C).run none (streamOf config conversation s.taken)
  chunks : ∀ conversation, (s.chunks.filter fun chunk => chunk.conversation = conversation) =
    ((streamMachine C).outs none (streamOf config conversation s.taken)).flatten
  uniform : ∀ conversation, Uniform (streamOf config conversation s.accepted)

theorem served_init : Served config ({} : Hub C) where
  known := List.Subset.refl _
  waiting _ h := by cases h
  fresh _ _ h := by cases h
  inOrder _ := List.prefix_refl _
  opens _ := rfl
  chunks _ := rfl
  uniform _ before first second after hsplit := by
    have hlength := congrArg List.length hsplit
    simp [streamOf] at hlength

omit [DecidableEq C] in
theorem Ok.mem_queue (h : s.Ok config) {channel : String} {entry : Entry C}
    (hentry : entry ∈ (s.box channel).queue) : entry ∈ s.accepted ∧ entry.channel = channel := by
  have hmem : entry ∈ (s.box channel).accepted := by
    rw [(h.boxes channel).holds.order]
    simp only [List.mem_append]
    exact Or.inr (Or.inr (Or.inr hentry))
  rw [h.split channel] at hmem
  exact (List.mem_filter.mp hmem).imp_right of_decide_eq_true

omit [DecidableEq C] in
theorem Ok.sorted (h : s.Ok config) :
    s.accepted.Pairwise fun first second => first.number < second.number := by
  have hrange := List.pairwise_lt_range (n := s.accepted.length)
  rw [← h.numbers, List.pairwise_map] at hrange
  exact hrange

theorem mem_streamOf {conversation : C} {entries : List (Entry C)} {entry : Entry C} :
    entry ∈ streamOf config conversation entries ↔
      entry ∈ entries ∧ entry.stream? config = some conversation := by
  rw [streamOf, List.mem_filter, decide_eq_true_eq]

/-- An item that is taken in order is the next one of its stream. -/
theorem next_in_order (h : s.Ok config) (hknown : s.Known) (hserved : s.Served config)
    {channel : String} {entry : Entry C} {rest : List (Entry C)}
    (hqueue : (s.box channel).queue = entry :: rest)
    (horder : s.TakesInOrder config (.get channel)) {conversation : C}
    (hstream : entry.stream? config = some conversation) :
    streamOf config conversation s.taken ++ [entry] <+:
      streamOf config conversation s.accepted := by
  obtain ⟨behind, hsplit⟩ := hserved.inOrder conversation
  have hhead : entry ∈ (s.box channel).queue := by
    rw [hqueue]
    exact List.mem_cons_self
  have hsorted := h.sorted.sublist
    (List.filter_sublist (p := fun entry => entry.stream? config = some conversation))
  have hentry : entry ∈ behind := by
    have hmem : entry ∈ streamOf config conversation s.accepted :=
      mem_streamOf.mpr ⟨(h.mem_queue hhead).1, hstream⟩
    rw [← hsplit] at hmem
    rcases List.mem_append.mp hmem with htaken | hbehind
    · exact absurd (mem_streamOf.mp htaken).1 (hserved.fresh channel entry hhead)
    · exact hbehind
  cases behind with
  | nil => cases hentry
  | cons next later =>
      have hnext : next ∈ s.accepted ∧ next.stream? config = some conversation := by
        have hmem : next ∈ streamOf config conversation s.accepted := by
          rw [← hsplit]
          exact List.mem_append_right _ List.mem_cons_self
        exact mem_streamOf.mp hmem
      have hsorted' : (streamOf config conversation s.taken ++ next :: later).Pairwise
          fun first second => first.number < second.number := by
        rw [hsplit]
        exact hsorted
      obtain ⟨-, hlater, hbefore⟩ := List.pairwise_append.mp hsorted'
      have hwaits : next ∈ (s.box next.channel).queue := by
        apply hserved.waiting next hnext.1
        intro htaken
        have hmem : next ∈ streamOf config conversation s.taken :=
          mem_streamOf.mpr ⟨htaken, hnext.2⟩
        exact Nat.lt_irrefl _ (hbefore next hmem next List.mem_cons_self)
      have hle : entry.number ≤ next.number :=
        horder entry (by rw [hqueue]; rfl) next.channel (hknown.accepted next hnext.1) next hwaits
          (hnext.2.trans hstream.symm) (by rw [hstream]; rfl)
      have hsame : entry = next := by
        rcases List.mem_cons.mp hentry with hsame | hmem
        · exact hsame
        · exact absurd hle (Nat.not_le.mpr ((List.pairwise_cons.mp hlater).1 entry hmem))
      rw [← hsplit, ← hsame]
      exact ⟨later, by rw [List.append_assoc]; rfl⟩

theorem streamOf_concat (config : HubConfig) (conversation : C) (entries : List (Entry C))
    (entry : Entry C) :
    streamOf config conversation (entries ++ [entry]) =
      if entry.stream? config = some conversation then
        streamOf config conversation entries ++ [entry]
      else streamOf config conversation entries := by
  rw [streamOf, List.filter_append]
  split
  · next hstream => simp [streamOf, hstream]
  · next hstream => simp [streamOf, hstream]

/-- An item joins its queue. -/
theorem Served.putNowait (h : s.Ok config) (hserved : s.Served config) (channel : String)
    (item : Item C)
    (hlast : ∀ conversation last, Entry.stream? config ⟨s.accepted.length, channel, item⟩ =
        some conversation →
      (streamOf config conversation s.accepted).getLast? = some last → last.isClose = false →
        channel = last.channel) : (s.putNowait channel item).Served config := by
  have hbox : ∀ other, ∀ entry ∈ (s.box other).queue,
      entry ∈ ((s.putNowait channel item).box other).queue := by
    intro other entry hentry
    rw [putNowait_box]
    split
    · next hsame =>
        rw [hsame] at hentry
        exact List.mem_append_left _ hentry
    · exact hentry
  refine
    { known := ?_, waiting := ?_, fresh := ?_, inOrder := ?_, opens := hserved.opens
      chunks := hserved.chunks, uniform := ?_ }
  · exact fun entry hentry => List.mem_append_left _ (hserved.known hentry)
  · intro entry hentry hwaits
    rcases List.mem_append.mp hentry with hold | hnew
    · exact hbox _ entry (hserved.waiting entry hold hwaits)
    · rw [List.mem_singleton.mp hnew, putNowait_box, if_pos rfl]
      exact List.mem_append_right _ (List.mem_singleton_self _)
  · intro other entry hentry htaken
    rw [putNowait_box] at hentry
    split at hentry
    · rcases List.mem_append.mp hentry with hold | hnew
      · exact hserved.fresh channel entry hold htaken
      · -- The number of the new item is not yet in use.
        have hnumber : entry.number ∈ s.accepted.map Entry.number :=
          List.mem_map_of_mem (hserved.known htaken)
        rw [List.mem_singleton.mp hnew, h.numbers, List.mem_range] at hnumber
        exact Nat.lt_irrefl _ hnumber
    · exact hserved.fresh other entry hentry htaken
  · intro conversation
    refine (hserved.inOrder conversation).trans ?_
    show _ <+: streamOf config conversation (s.accepted ++ [_])
    rw [streamOf_concat]
    split
    · exact List.prefix_append _ _
    · exact List.prefix_refl _
  · intro conversation
    show Uniform (streamOf config conversation (s.accepted ++ [_]))
    rw [streamOf_concat]
    split
    · next hstream =>
        apply (hserved.uniform conversation).concat
        intro last hsome hdelta
        exact hlast conversation last hstream hsome hdelta
    · exact hserved.uniform conversation

/-- What the hub looks like when an item has been taken. -/
theorem taken_shape (config : HubConfig) (s : Hub C) (channel : String) (entry : Entry C)
    (rest : List (Entry C)) :
    let t := (s.take channel entry rest).process config channel entry
    (t.box channel).queue = rest ∧ (∀ other, other ≠ channel → t.box other = s.box other) ∧
      t.taken = s.taken ++ [entry] ∧ t.accepted = s.accepted := by
  have hprocessed := process_processed config (s.take channel entry rest) channel entry
  have hbox : (s.take channel entry rest).box channel = { s.box channel with queue := rest } :=
    Function.update_self _ _ _
  refine ⟨?_, ?_, hprocessed.rest.2.2.2.1, hprocessed.rest.1⟩
  · rcases hprocessed.box with hawait | ⟨worker, -, hfinish⟩ | ⟨-, hattempt⟩
    · rw [hawait, hbox]
      rfl
    · rw [hfinish, hbox]
      rfl
    · rw [hattempt, hbox]
      rfl
  · intro other hother
    rw [hprocessed.other other hother]
    exact Function.update_of_ne hother _ _

/-- The first item of a queue is in no queue when it has been taken. -/
theorem fresh_of_taken (h : s.Ok config) (hserved : s.Served config) {channel : String}
    {entry : Entry C} {rest : List (Entry C)} (hqueue : (s.box channel).queue = entry :: rest)
    {t : Hub C} (hrest : (t.box channel).queue = rest)
    (hother : ∀ other, other ≠ channel → t.box other = s.box other) :
    ∀ other, ∀ waiting ∈ (t.box other).queue, waiting ∉ s.taken ++ [entry] := by
  have hhead : entry ∈ (s.box channel).queue := by
    rw [hqueue]
    exact List.mem_cons_self
  intro other waiting hwaiting htaken
  rw [List.mem_append, List.mem_singleton] at htaken
  by_cases hsame : other = channel
  · rw [hsame, hrest] at hwaiting
    rcases htaken with hold | rfl
    · exact hserved.fresh channel waiting (by rw [hqueue]; exact List.mem_cons_of_mem _ hwaiting) hold
    · have hnumbers := (h.boxes channel).holds.numbers
      rw [(h.boxes channel).holds.order, hqueue] at hnumbers
      simp only [List.map_append, List.map_cons, List.nodup_append, List.nodup_cons] at hnumbers
      exact hnumbers.2.1.2.1.2.1.1 (List.mem_map_of_mem hwaiting)
  · rw [hother other hsame] at hwaiting
    rcases htaken with hold | rfl
    · exact hserved.fresh other waiting hwaiting hold
    · exact hsame ((h.mem_queue hwaiting).2.symm.trans (h.mem_queue hhead).2)

/-- A close finds a stream that is open on its own channel. -/
theorem close_streams (hserved : s.Served config) {entry : Entry C} {conversation : C}
    (hnext : streamOf config conversation s.taken ++ [entry] <+:
      streamOf config conversation s.accepted)
    (hopen : (s.openStreams conversation).isSome = true) :
    streaming config entry.channel = true := by
  rw [hserved.opens conversation] at hopen
  obtain ⟨before, last, hsplit, hdelta, hstreaming⟩ :=
    open_stream (fun entry hentry => (mem_streamOf.mp hentry).2) hopen
  obtain ⟨behind, hbehind⟩ := hnext
  have hsame : entry.channel = last.channel := by
    apply hserved.uniform conversation before last entry behind _ hdelta
    rw [← hbehind, hsplit, List.append_assoc, List.append_assoc]
    rfl
  rw [hsame]
  exact hstreaming

/-- The chunks of the item that is taken join those of its stream. -/
theorem streams_of_taken (hserved : s.Served config) {channel : String} {entry : Entry C}
    (rest : List (Entry C)) (hchannel : entry.channel = channel)
    (hnext : ∀ conversation, entry.stream? config = some conversation →
      streamOf config conversation s.taken ++ [entry] <+:
        streamOf config conversation s.accepted) (conversation : C) :
    let t := (s.take channel entry rest).process config channel entry
    t.openStreams conversation =
        (streamMachine C).run none (streamOf config conversation (s.taken ++ [entry])) ∧
      (t.chunks.filter fun chunk => chunk.conversation = conversation) =
        ((streamMachine C).outs none
          (streamOf config conversation (s.taken ++ [entry]))).flatten := by
  intro t
  cases hstream : entry.stream? config with
  | none =>
      obtain ⟨hopens, hchunks⟩ :=
        no_stream_of_process (s := s.take channel entry rest) hchannel hstream
      rw [streamOf_concat, if_neg (by rw [hstream]; nofun)]
      refine ⟨?_, ?_⟩
      · rw [hopens]
        exact hserved.opens conversation
      · rw [hchunks]
        exact hserved.chunks conversation
  | some own =>
      obtain ⟨hopens, hchunks⟩ := stream_of_process (s := s.take channel entry rest) hchannel hstream
        (fun _ hopen => by rw [← hchannel]; exact close_streams hserved (hnext own hstream) hopen)
      have hchat : (s.take channel entry rest).openStreams own =
          (streamMachine C).run none (streamOf config own s.taken) := hserved.opens own
      have hchunks : t.chunks = s.chunks ++ (streamMachine C).out
          ((s.take channel entry rest).openStreams own) entry := hchunks
      rw [hchat] at hopens hchunks
      rw [hopens, hchunks, List.filter_append, hserved.chunks conversation, streamOf_concat]
      by_cases hsame : conversation = own
      · subst hsame
        rw [if_pos hstream, Function.update_self, Machine.run_append, Machine.outs_append,
          List.flatten_append]
        refine ⟨rfl, ?_⟩
        rw [List.filter_eq_self.mpr]
        · exact congrArg _ (List.append_nil _).symm
        · intro chunk hchunk
          exact decide_eq_true (out_conversation hstream _ chunk hchunk)
      · rw [if_neg (fun hother => hsame (Option.some.inj (hother.symm.trans hstream))),
          Function.update_of_ne hsame]
        refine ⟨hserved.opens conversation, ?_⟩
        rw [List.filter_eq_nil_iff.mpr, List.append_nil]
        intro chunk hchunk hother
        exact hsame ((of_decide_eq_true hother).symm.trans (out_conversation hstream _ chunk hchunk))

/-- What is taken next is served next. -/
theorem Served.get (h : s.Ok config) (hknown : s.Known) (hserved : s.Served config)
    {channel : String} (horder : s.TakesInOrder config (.get channel)) :
    (s.get config channel).Served config := by
  rw [Hub.get]
  split
  case h_2 => exact hserved
  case h_1 entry rest hidle hqueue =>
  have hhead : entry ∈ (s.box channel).queue := by
    rw [hqueue]
    exact List.mem_cons_self
  obtain ⟨hentry, hchannel⟩ := h.mem_queue hhead
  obtain ⟨hrest, hother, htaken, haccepted⟩ := taken_shape config s channel entry rest
  have hnext : ∀ conversation, entry.stream? config = some conversation →
      streamOf config conversation s.taken ++ [entry] <+:
        streamOf config conversation s.accepted := fun conversation hstream =>
    next_in_order h hknown hserved hqueue horder hstream
  have hstreams := streams_of_taken hserved rest hchannel hnext
  refine
    { known := ?_, waiting := ?_, fresh := ?_, inOrder := ?_
      opens := fun conversation => ?_, chunks := fun conversation => ?_, uniform := ?_ }
  · rw [htaken, haccepted]
    intro other hmem
    rcases List.mem_append.mp hmem with hold | hnew
    · exact hserved.known hold
    · rw [List.mem_singleton.mp hnew]
      exact hentry
  · rw [htaken, haccepted]
    intro other hmem hwaits
    rw [List.mem_append, List.mem_singleton, not_or] at hwaits
    have hwaiting := hserved.waiting other hmem hwaits.1
    by_cases hsame : other.channel = channel
    · rw [hsame] at hwaiting ⊢
      rw [hqueue] at hwaiting
      rw [hrest]
      exact (List.mem_cons.mp hwaiting).resolve_left hwaits.2
    · rw [hother _ hsame]
      exact hwaiting
  · rw [htaken]
    exact fresh_of_taken h hserved hqueue hrest hother
  · rw [htaken, haccepted]
    intro conversation
    rw [streamOf_concat]
    split
    · next hstream => exact hnext conversation hstream
    · exact hserved.inOrder conversation
  · rw [htaken]
    exact (hstreams conversation).1
  · rw [htaken]
    exact (hstreams conversation).2
  · rw [haccepted]
    exact hserved.uniform

/-- Nothing is put, taken or sent. -/
theorem Served.same (hserved : s.Served config) {t : Hub C}
    (hqueues : ∀ channel, (t.box channel).queue = (s.box channel).queue)
    (htables : t.accepted = s.accepted ∧ t.taken = s.taken ∧ t.chunks = s.chunks ∧
      t.openStreams = s.openStreams) : t.Served config := by
  obtain ⟨haccepted, htaken, hchunks, hopens⟩ := htables
  refine
    { known := ?_, waiting := ?_, fresh := ?_, inOrder := ?_, opens := ?_, chunks := ?_
      uniform := ?_ }
  · rw [haccepted, htaken]
    exact hserved.known
  · intro entry
    rw [haccepted, htaken, hqueues]
    exact hserved.waiting entry
  · intro channel
    rw [htaken, hqueues]
    exact hserved.fresh channel
  · rw [haccepted, htaken]
    exact hserved.inOrder
  · rw [htaken, hopens]
    exact hserved.opens
  · rw [htaken, hchunks]
    exact hserved.chunks
  · rw [haccepted]
    exact hserved.uniform

end Hub
end Pico
end CodeCub
