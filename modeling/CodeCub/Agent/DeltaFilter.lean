import CodeCub.Agent.Parser

/-!
# Streaming a final answer

`FinalAnswerDeltaFilter` gets a reply in chunks and passes on what is inside its
`<final>` element.  Until it has seen the opening tag it keeps six characters of what
it has read; after that it keeps the part of the text that may be the beginning of the
closing tag.  The second state is a function of all the text since the opening tag.
The first one forgets a `<tool` that is more than six characters back.
-/

namespace CodeCub
namespace Agent

open Python

def finalOpen : Text := openTag finalName

def finalClose : Text := closeTag finalName

/-- `texts` are the arguments of the calls of `on_text`. -/
structure FinalAnswerDeltaFilter where
  buffer : Text := []
  inFinal : Bool := false
  closed : Bool := false
  texts : List Text := []

namespace FinalAnswerDeltaFilter

def safeEmitLength (buffer : Text) : Nat := buffer.length - overlap finalClose buffer

/-- The `while` loop of `feed`.  Every turn that goes on shortens the buffer. -/
def drain : Nat → FinalAnswerDeltaFilter → FinalAnswerDeltaFilter
  | 0, v => v
  | fuel + 1, v =>
      if v.buffer = [] then v
      else
        match find finalClose v.buffer with
        | some stop =>
            { v with
              texts := if 0 < stop then v.texts ++ [v.buffer.take stop] else v.texts
              buffer := v.buffer.drop (stop + finalClose.length)
              closed := true }
        | none =>
            let safeLength := safeEmitLength v.buffer
            if safeLength = 0 then v
            else
              drain fuel { v with
                texts := v.texts ++ [v.buffer.take safeLength]
                buffer := v.buffer.drop safeLength }

def feed (v : FinalAnswerDeltaFilter) (chunk : Text) : FinalAnswerDeltaFilter :=
  if v.closed = true ∨ chunk = [] then v
  else
    let buffer := v.buffer ++ chunk
    if v.inFinal then drain (buffer.length + 1) { v with buffer := buffer }
    else if beforeFinal toolStart buffer then
      { v with buffer := lastN (finalOpen.length - 1) buffer }
    else
      match find finalOpen buffer with
      | none => { v with buffer := lastN (finalOpen.length - 1) buffer }
      | some start =>
          let rest := buffer.drop (start + finalOpen.length)
          drain (rest.length + 1) { v with buffer := rest, inFinal := true }

/-- All that is passed on of a reply that arrives in these chunks. -/
def emitted (chunks : List Text) : Text := (chunks.foldl feed {}).texts.flatten

end FinalAnswerDeltaFilter

/-! ## What is passed on -/

/-- What is passed on of the text after the opening tag. -/
def visible (text : Text) : Text :=
  match find finalClose text with
  | some stop => text.take stop
  | none => spent finalClose text

/-- What follows `<final>`, when it is there and no `<tool` before it. -/
def opening (window : Text) : Option Text :=
  if beforeFinal toolStart window then none
  else (find finalOpen window).map fun start => window.drop (start + finalOpen.length)

/-- What follows the first `<final>` that some chunk, read together with the six
characters before it, shows without a `<tool` before it. -/
def streamed (seen : Text) : List Text → Option Text
  | [] => none
  | chunk :: rest =>
      match opening (lastN (finalOpen.length - 1) seen ++ chunk) with
      | some text => some (text ++ rest.flatten)
      | none => streamed (seen ++ chunk) rest

theorem finalClose_ne_nil : finalClose ≠ [] := closeTag_ne_nil _

theorem finalOpen_ne_nil : finalOpen ≠ [] := openTag_ne_nil _

/-- More text after a text that is still open. -/
theorem visible_append {text : Text} (h : find finalClose text = none) (more : Text) :
    visible (text ++ more) = spent finalClose text ++ visible (kept finalClose text ++ more) := by
  unfold visible
  rw [find_append_kept h]
  cases find finalClose (kept finalClose text ++ more) with
  | none => exact spent_append finalClose_ne_nil text more
  | some stop =>
      have hsplit : text ++ more =
          spent finalClose text ++ (kept finalClose text ++ more) := by
        rw [← List.append_assoc, spent_append_kept]
      show (text ++ more).take ((spent finalClose text).length + stop) = _
      rw [hsplit, List.take_length_add_append]

theorem visible_of_some {text : Text} {stop : Nat} (h : find finalClose text = some stop)
    (more : Text) : visible (text ++ more) = visible text := by
  have hlength := (find_eq_some_iff.mp h).1.length_le finalClose_ne_nil
  unfold visible
  rw [h, find_append_of_some h finalClose_ne_nil]
  show (text ++ more).take stop = text.take stop
  rw [List.take_append_of_le_length (by omega)]

/-- The kept part of an open text is open, and kept as a whole. -/
theorem kept_kept {text : Text} (h : find finalClose text = none) :
    find finalClose (kept finalClose text) = none ∧
      kept finalClose (kept finalClose text) = kept finalClose text ∧
      spent finalClose (kept finalClose text) = [] := by
  have hfind := find_append_kept h []
  have hkept := kept_append finalClose_ne_nil text []
  rw [List.append_nil, List.append_nil, h] at hfind
  rw [List.append_nil, List.append_nil] at hkept
  refine ⟨Option.map_eq_none_iff.mp hfind.symm, hkept.symm, ?_⟩
  have hsplit : spent finalClose (kept finalClose text) ++ kept finalClose (kept finalClose text) =
      kept finalClose text := spent_append_kept
  rw [← hkept] at hsplit
  exact List.append_left_eq_self.mp hsplit

namespace FinalAnswerDeltaFilter

/-- The state after `text` has followed the opening tag. -/
structure Streaming (text : Text) (v : FinalAnswerDeltaFilter) : Prop where
  inFinal : v.inFinal = true
  texts : v.texts.flatten = visible text
  closed : v.closed = (find finalClose text).isSome
  buffer : find finalClose text = none → v.buffer = kept finalClose text

/-- What one run of the loop does with the text in the buffer. -/
theorem drain_spec (fuel : Nat) (v : FinalAnswerDeltaFilter) (hfuel : v.buffer.length < fuel)
    (hclosed : v.closed = false) :
    (drain fuel v).inFinal = v.inFinal ∧
      (drain fuel v).texts.flatten = v.texts.flatten ++ visible v.buffer ∧
      (drain fuel v).closed = (find finalClose v.buffer).isSome ∧
      (find finalClose v.buffer = none → (drain fuel v).buffer = kept finalClose v.buffer) := by
  induction fuel generalizing v with
  | zero => omega
  | succ fuel ih =>
      unfold drain
      by_cases hempty : v.buffer = []
      · rw [if_pos hempty, hempty]
        refine ⟨rfl, ?_, hclosed, fun _ => rfl⟩
        simp [visible, find, spent, finalClose, closeTag]
      · rw [if_neg hempty]
        cases hfind : find finalClose v.buffer with
        | some stop =>
            refine ⟨rfl, ?_, rfl, fun hnone => nomatch hnone⟩
            unfold visible
            rw [hfind]
            by_cases hstop : 0 < stop
            · simp [hstop]
            · have hzero : stop = 0 := by omega
              subst hzero
              simp
        | none =>
            have hvisible : visible v.buffer = v.buffer.take (safeEmitLength v.buffer) := by
              unfold visible
              rw [hfind]
              rfl
            have hkept : v.buffer.drop (safeEmitLength v.buffer) = kept finalClose v.buffer := rfl
            by_cases hsafe : safeEmitLength v.buffer = 0
            · rw [hsafe, List.take_zero] at hvisible
              rw [hsafe, List.drop_zero] at hkept
              simp only [hsafe, if_true, hvisible, List.append_nil]
              exact ⟨trivial, trivial, hclosed, fun _ => hkept⟩
            · simp only [hsafe, if_false, hkept]
              obtain ⟨hopen, hsame, hnothing⟩ := kept_kept hfind
              have hpos := List.length_pos_iff.mpr hempty
              have hshort : (kept finalClose v.buffer).length < fuel := by
                rw [← hkept, List.length_drop]
                omega
              obtain ⟨hin, htexts, hend, hbuffer⟩ := ih
                { v with
                  texts := v.texts ++ [v.buffer.take (safeEmitLength v.buffer)]
                  buffer := kept finalClose v.buffer } hshort hclosed
              rw [hopen] at hend hbuffer
              refine ⟨hin, ?_, hend, fun _ => (hbuffer rfl).trans hsame⟩
              rw [htexts, hvisible]
              have hrest : visible (kept finalClose v.buffer) = [] := by
                unfold visible
                rw [hopen]
                exact hnothing
              rw [hrest]
              simp

theorem Streaming.feed {text : Text} {v : FinalAnswerDeltaFilter} (h : Streaming text v)
    (chunk : Text) : Streaming (text ++ chunk) (v.feed chunk) := by
  unfold FinalAnswerDeltaFilter.feed
  by_cases hchunk : chunk = []
  · rw [if_pos (.inr hchunk), hchunk, List.append_nil]
    exact h
  · cases hfind : find finalClose text with
    | some stop =>
        have hclosed : v.closed = true := by rw [h.closed, hfind]; rfl
        rw [if_pos (.inl hclosed)]
        have hmore := find_append_of_some hfind finalClose_ne_nil chunk
        refine ⟨h.inFinal, ?_, ?_, fun hnone => ?_⟩
        · rw [h.texts, visible_of_some hfind]
        · rw [hclosed, hmore]
          rfl
        · rw [hmore] at hnone
          cases hnone
    | none =>
        have hopen : v.closed = false := by rw [h.closed, hfind]; rfl
        rw [if_neg (by simp [hopen, hchunk]), if_pos h.inFinal, h.buffer hfind]
        obtain ⟨hin, htexts, hend, hbuffer⟩ := drain_spec
          ((kept finalClose text ++ chunk).length + 1)
          { v with buffer := kept finalClose text ++ chunk } (Nat.lt_succ_self _) hopen
        refine ⟨hin.trans h.inFinal, ?_, ?_, ?_⟩
        · rw [htexts, visible_append hfind, h.texts]
          unfold visible
          rw [hfind]
        · rw [hend, find_append_kept hfind, Option.isSome_map]
        · intro hnone
          rw [find_append_kept hfind, Option.map_eq_none_iff] at hnone
          rw [hbuffer hnone, kept_append finalClose_ne_nil text chunk]

theorem Streaming.feedAll {text : Text} {v : FinalAnswerDeltaFilter} (h : Streaming text v)
    (chunks : List Text) :
    Streaming (text ++ chunks.flatten) (chunks.foldl FinalAnswerDeltaFilter.feed v) := by
  induction chunks generalizing text v with
  | nil => simpa using h
  | cons chunk rest ih =>
      rw [List.flatten_cons, ← List.append_assoc]
      exact ih (h.feed chunk)

/-- The state while no chunk has opened the answer. -/
def searching (seen : Text) : FinalAnswerDeltaFilter :=
  { buffer := lastN (finalOpen.length - 1) seen }

theorem feed_searching_of_none {seen chunk : Text}
    (h : opening (lastN (finalOpen.length - 1) seen ++ chunk) = none) :
    (searching seen).feed chunk = searching (seen ++ chunk) := by
  unfold FinalAnswerDeltaFilter.feed
  by_cases hchunk : chunk = []
  · rw [if_pos (.inr hchunk), hchunk, List.append_nil]
  · rw [if_neg (by simp [searching, hchunk]), if_neg (by simp [searching])]
    unfold opening at h
    simp only [searching, lastN_lastN_append]
    by_cases htool : beforeFinal toolStart (lastN (finalOpen.length - 1) seen ++ chunk) = true
    · rw [if_pos htool]
    · rw [if_neg htool, Option.map_eq_none_iff] at h
      rw [if_neg htool, h]

theorem feed_searching_of_some {seen chunk text : Text}
    (h : opening (lastN (finalOpen.length - 1) seen ++ chunk) = some text) :
    Streaming text ((searching seen).feed chunk) := by
  unfold opening at h
  by_cases htool : beforeFinal toolStart (lastN (finalOpen.length - 1) seen ++ chunk) = true
  · rw [if_pos htool] at h
    cases h
  · rw [if_neg htool, Option.map_eq_some_iff] at h
    obtain ⟨start, hstart, rfl⟩ := h
    have hchunk : chunk ≠ [] := by
      intro hchunk
      -- six characters have no room for the tag
      have hlength := (find_eq_some_iff.mp hstart).1.length_le finalOpen_ne_nil
      rw [hchunk, List.append_nil, length_lastN] at hlength
      have hpos := List.length_pos_iff.mpr finalOpen_ne_nil
      omega
    unfold FinalAnswerDeltaFilter.feed
    rw [if_neg (by simp [searching, hchunk]), if_neg (by simp [searching])]
    simp only [searching, if_neg htool, hstart]
    obtain ⟨hin, htexts, hend, hbuffer⟩ := drain_spec _
      { buffer := (lastN (finalOpen.length - 1) seen ++ chunk).drop (start + finalOpen.length)
        inFinal := true } (Nat.lt_succ_self _) rfl
    exact ⟨hin, by simpa using htexts, hend, hbuffer⟩

/-- Whatever the chunks are, what is passed on is what is visible of the text that the
first opening chunk starts. -/
theorem foldl_searching (seen : Text) (chunks : List Text) :
    (chunks.foldl feed (searching seen)).texts.flatten =
      ((streamed seen chunks).map visible).getD [] := by
  induction chunks generalizing seen with
  | nil => rfl
  | cons chunk rest ih =>
      unfold streamed
      rw [List.foldl_cons]
      cases hopening : opening (lastN (finalOpen.length - 1) seen ++ chunk) with
      | none =>
          rw [feed_searching_of_none hopening]
          exact ih (seen ++ chunk)
      | some text => exact ((feed_searching_of_some hopening).feedAll rest).texts

theorem emitted_eq (chunks : List Text) :
    emitted chunks = ((streamed [] chunks).map visible).getD [] :=
  foldl_searching [] chunks

end FinalAnswerDeltaFilter

/-! ## Chunks and the whole reply -/

/-- The window of a chunk is a piece of the reply. -/
theorem window_split (seen chunk : Text) (rest : List Text) :
    ∃ before : Text, before.length = seen.length - (finalOpen.length - 1) ∧
      seen ++ (chunk :: rest).flatten =
        before ++ ((lastN (finalOpen.length - 1) seen ++ chunk) ++ rest.flatten) := by
  refine ⟨seen.take (seen.length - (finalOpen.length - 1)), ?_, ?_⟩
  · rw [List.length_take]
    omega
  · rw [List.flatten_cons, ← List.append_assoc, ← List.append_assoc, ← List.append_assoc]
    unfold lastN
    rw [List.take_append_drop]

theorem Occurs.of_window {pat before window after : Text} {i : Nat} (h : Occurs pat window i)
    (hne : pat ≠ []) : Occurs pat (before ++ (window ++ after)) (before.length + i) :=
  (occurs_append_right before).mpr (h.append hne after)

theorem occurs_of_opening {window text : Text} (h : opening window = some text) :
    ∃ start, find finalOpen window = some start ∧
      text = window.drop (start + finalOpen.length) := by
  unfold opening at h
  by_cases htool : beforeFinal toolStart window = true
  · rw [if_pos htool] at h
    cases h
  · rw [if_neg htool, Option.map_eq_some_iff] at h
    obtain ⟨start, hstart, rfl⟩ := h
    exact ⟨start, hstart, rfl⟩

/-- A reply without `<final>` opens nothing. -/
theorem streamed_eq_none {seen : Text} {chunks : List Text}
    (h : find finalOpen (seen ++ chunks.flatten) = none) : streamed seen chunks = none := by
  induction chunks generalizing seen with
  | nil => rfl
  | cons chunk rest ih =>
      unfold streamed
      cases hopening : opening (lastN (finalOpen.length - 1) seen ++ chunk) with
      | none =>
          apply ih
          rw [List.append_assoc, ← List.flatten_cons]
          exact h
      | some text =>
          exfalso
          obtain ⟨start, hstart, -⟩ := occurs_of_opening hopening
          obtain ⟨before, -, hsplit⟩ := window_split seen chunk rest
          rw [hsplit, find_eq_none_iff] at h
          exact h _ (Occurs.of_window (find_eq_some_iff.mp hstart).1 finalOpen_ne_nil)

/-- A window that shows the first `<final>` of the reply shows no `<tool` before it that
the reply does not have. -/
theorem not_beforeFinal_window {before window after : Text} {start : Nat}
    (hstart : find finalOpen (before ++ (window ++ after)) = some start)
    (htool : beforeFinal toolStart (before ++ (window ++ after)) = false)
    (hhere : find finalOpen window = some (start - before.length)) :
    beforeFinal toolStart window = false := by
  rw [beforeFinal_eq_false_iff] at htool ⊢
  intro position hposition
  refine ⟨start - before.length, hhere, ?_⟩
  have hoccurs : Occurs toolStart (before ++ (window ++ after)) (before.length + position) :=
    Occurs.of_window (find_eq_some_iff.mp hposition).1 (List.cons_ne_nil _ _)
  cases hfind : find toolStart (before ++ (window ++ after)) with
  | none => exact absurd hoccurs (find_eq_none_iff.mp hfind _)
  | some first =>
      obtain ⟨final, hfinal, hle⟩ := htool first hfind
      have hsame : final = start := Option.some.inj (hfinal.symm.trans hstart)
      have hfirst : first ≤ before.length + position := by
        by_contra hlt
        exact (find_eq_some_iff.mp hfind).2 _ (by omega) hoccurs
      omega

/-- The first `<final>` of the text is the first one of a window that holds it. -/
theorem find_finalOpen_window {before window after : Text} {start : Nat}
    (hstart : find finalOpen (before ++ (window ++ after)) = some start)
    (hbegin : before.length ≤ start)
    (hend : start + finalOpen.length ≤ before.length + window.length) :
    find finalOpen window = some (start - before.length) := by
  obtain ⟨hoccurs, hfirst⟩ := find_eq_some_iff.mp hstart
  refine find_eq_some_iff.mpr ⟨?_, ?_⟩
  · refine Occurs.of_append (b := after) ?_ (by omega)
    apply (occurs_append_right before).mp
    rw [Nat.add_sub_cancel' hbegin]
    exact hoccurs
  · intro j hj hother
    exact hfirst (before.length + j) (by omega) (Occurs.of_window hother finalOpen_ne_nil)

/-- Nothing opens in a window that ends before the first `<final>` does. -/
theorem opening_window_none {before window after : Text} {start : Nat}
    (hstart : find finalOpen (before ++ (window ++ after)) = some start)
    (hend : before.length + window.length < start + finalOpen.length) :
    opening window = none := by
  cases hopening : opening window with
  | none => rfl
  | some text =>
      exfalso
      obtain ⟨position, hposition, -⟩ := occurs_of_opening hopening
      have hother := (find_eq_some_iff.mp hposition).1
      have hlength := hother.length_le finalOpen_ne_nil
      exact (find_eq_some_iff.mp hstart).2 (before.length + position) (by omega)
        (Occurs.of_window hother finalOpen_ne_nil)

/-- A window that holds the first `<final>`, with no `<tool` before it, opens there. -/
theorem opening_window {before window after : Text} {start : Nat}
    (hstart : find finalOpen (before ++ (window ++ after)) = some start)
    (htool : beforeFinal toolStart (before ++ (window ++ after)) = false)
    (hbegin : before.length ≤ start)
    (hend : start + finalOpen.length ≤ before.length + window.length) :
    opening window = some (window.drop (start - before.length + finalOpen.length)) := by
  have hhere := find_finalOpen_window hstart hbegin hend
  have hopen := not_beforeFinal_window hstart htool hhere
  unfold opening
  rw [if_neg (by rw [hopen]; exact Bool.false_ne_true), hhere]
  rfl

/-- An answer with no `<tool` before it is opened at its first `<final>`, by the chunk
that completes the tag. -/
theorem streamed_of_final {raw seen : Text} {chunks : List Text} {start : Nat}
    (hraw : seen ++ chunks.flatten = raw) (hstart : find finalOpen raw = some start)
    (htool : beforeFinal toolStart raw = false) (hseen : seen.length < start + finalOpen.length) :
    streamed seen chunks = some (raw.drop (start + finalOpen.length)) := by
  induction chunks generalizing seen with
  | nil =>
      have hlength := (find_eq_some_iff.mp hstart).1.length_le finalOpen_ne_nil
      rw [← hraw, List.flatten_nil, List.append_nil] at hlength
      omega
  | cons chunk rest ih =>
      obtain ⟨before, hbefore, hsplit⟩ := window_split seen chunk rest
      have hpos := List.length_pos_iff.mpr finalOpen_ne_nil
      rw [hraw] at hsplit
      have hwindow : before.length + (lastN (finalOpen.length - 1) seen ++ chunk).length =
          (seen ++ chunk).length := by
        rw [List.length_append, List.length_append, length_lastN]
        omega
      have hstart' := hstart
      have htool' := htool
      rw [hsplit] at hstart' htool'
      unfold streamed
      by_cases hend : start + finalOpen.length ≤ (seen ++ chunk).length
      · rw [opening_window hstart' htool' (by omega) (by omega)]
        show some _ = some _
        rw [hsplit, ← List.drop_append_of_le_length (by omega)]
        have hshift : start + finalOpen.length =
            before.length + (start - before.length + finalOpen.length) := by omega
        rw [hshift, List.drop_length_add_append]
      · rw [opening_window_none hstart' (by omega)]
        refine ih ?_ (by omega)
        rw [List.append_assoc, ← List.flatten_cons]
        exact hraw

/-! ## Exactness -/

/-- A possible beginning of the closing tag. -/
def PartialClose (tail : Text) : Prop := tail <+: finalClose ∧ tail ≠ finalClose

theorem inside_final (text : Text) :
    inside finalName text = match find finalClose text with
      | none => text
      | some stop => text.take stop := rfl

theorem emitted_of_final {loads : Text → Option Json} {raw answer : Text} {chunks : List Text}
    (h : parseModelResponse loads raw = .final answer) (hchunks : chunks.flatten = raw) :
    ∃ start, find finalOpen raw = some start ∧ answer = answerAt raw start ∧
      FinalAnswerDeltaFilter.emitted chunks = visible (raw.drop (start + finalOpen.length)) := by
  obtain ⟨htool, start, hstart, hanswer⟩ := final_cases h
  refine ⟨start, hstart, hanswer, ?_⟩
  have hpos := List.length_pos_iff.mpr finalOpen_ne_nil
  rw [FinalAnswerDeltaFilter.emitted_eq, streamed_of_final hchunks hstart htool
    (by rw [List.length_nil]; omega)]
  rfl

/-- The visible part of a text that stays open leaves out its longest end that may begin
the closing tag. -/
theorem visible_of_none {text : Text} (h : find finalClose text = none) :
    ∃ tail, text = visible text ++ tail ∧ PartialClose tail ∧
      ∀ other, other <:+ text → PartialClose other → other.length ≤ tail.length := by
  have hvisible : visible text = spent finalClose text := by
    unfold visible
    rw [h]
  refine ⟨kept finalClose text, ?_, ⟨kept_begins, ?_⟩, ?_⟩
  · rw [hvisible, spent_append_kept]
  · intro hsame
    have hlt : overlap finalClose text < finalClose.length := overlap_lt finalClose_ne_nil
    rw [← length_kept, hsame] at hlt
    omega
  · intro other hsuffix hbegins
    rw [length_kept]
    have hlast : lastN other.length text = other :=
      (List.suffix_iff_eq_drop.mp hsuffix).symm
    refine le_overlap ?_ ?_ hsuffix.length_le
    · rw [hlast]
      exact hbegins.1
    · refine Nat.lt_of_le_of_ne hbegins.1.length_le ?_
      intro hsame
      exact hbegins.2 (hbegins.1.eq_of_length hsame)

/-- What is passed on of a final answer is the text inside its first `<final>`; when the
element stays open, without the longest end that may begin the closing tag. -/
theorem stream_exact (loads : Text → Option Json) (raw answer : Text)
    (h : parseModelResponse loads raw = .final answer) (chunks : List Text)
    (hchunks : chunks.flatten = raw) :
    ∃ start, find finalOpen raw = some start ∧
      (∀ stop, find finalClose (raw.drop (start + finalOpen.length)) = some stop →
        FinalAnswerDeltaFilter.emitted chunks =
            (raw.drop (start + finalOpen.length)).take stop ∧
          stripText (FinalAnswerDeltaFilter.emitted chunks) = answer) ∧
      (find finalClose (raw.drop (start + finalOpen.length)) = none →
        ∃ tail, raw.drop (start + finalOpen.length) =
            FinalAnswerDeltaFilter.emitted chunks ++ tail ∧
          PartialClose tail ∧
          ∀ other, other <:+ raw.drop (start + finalOpen.length) → PartialClose other →
            other.length ≤ tail.length) := by
  obtain ⟨start, hstart, hanswer, hemitted⟩ := emitted_of_final h hchunks
  refine ⟨start, hstart, ?_, ?_⟩
  · intro stop hstop
    have hvisible : visible (raw.drop (start + finalOpen.length)) =
        (raw.drop (start + finalOpen.length)).take stop := by
      unfold visible
      rw [hstop]
    refine ⟨hemitted.trans hvisible, ?_⟩
    rw [hemitted, hvisible, hanswer]
    show stripText _ = stripText (inside finalName (raw.drop (start + finalOpen.length)))
    rw [inside_final, hstop]
  · intro hnone
    rw [hemitted]
    exact visible_of_none hnone

/-- A reply cut inside both of its tags. -/
def cutAnswer : List Text :=
  [['<', 'f', 'i', 'n'], ['a', 'l', '>', 'h', 'i', '<'], ['/', 'f', 'i', 'n', 'a', 'l', '>']]

theorem cutAnswer_exact :
    parseModelResponse (fun _ => none) cutAnswer.flatten = .final ['h', 'i'] ∧
      ∃ start, find finalOpen cutAnswer.flatten = some start ∧
        (∀ stop, find finalClose (cutAnswer.flatten.drop (start + finalOpen.length)) = some stop →
          FinalAnswerDeltaFilter.emitted cutAnswer =
              (cutAnswer.flatten.drop (start + finalOpen.length)).take stop ∧
            stripText (FinalAnswerDeltaFilter.emitted cutAnswer) = ['h', 'i']) ∧
        (find finalClose (cutAnswer.flatten.drop (start + finalOpen.length)) = none →
          ∃ tail, cutAnswer.flatten.drop (start + finalOpen.length) =
              FinalAnswerDeltaFilter.emitted cutAnswer ++ tail ∧
            PartialClose tail ∧
            ∀ other, other <:+ cutAnswer.flatten.drop (start + finalOpen.length) →
              PartialClose other → other.length ≤ tail.length) :=
  ⟨rfl, stream_exact (fun _ => none) cutAnswer.flatten ['h', 'i'] rfl cutAnswer rfl⟩

/-! ## Leaks -/

/-- The text inside a `<final>` is visible only as far as it is part of the answer. -/
theorem isSpace_of_blank {raw : Text} {start : Nat} (h : answerAt raw start = []) :
    ∀ c ∈ visible (raw.drop (start + finalOpen.length)), isSpace c = true := by
  have hsub : visible (raw.drop (start + finalOpen.length)) ⊆
      inside finalName (raw.drop (start + finalOpen.length)) := by
    rw [inside_final]
    unfold visible
    cases find finalClose (raw.drop (start + finalOpen.length)) with
    | none => exact (List.take_subset _ _)
    | some stop => exact List.Subset.refl _
  intro c hc
  by_contra hspace
  have hmem := mem_stripList (hsub hc) (by simpa using hspace)
  have hempty : stripList isSpace (inside finalName (raw.drop (start + finalOpen.length))) = [] := h
  rw [hempty] at hmem
  cases hmem

/-- What is passed on of a reply that is no final answer is white space, unless the reply
has a `<tool` before its first `<final>` and some chunk shows a `<final>` within the six
characters before it and its own, no `<tool` before it there, and visible text after it. -/
theorem no_leak_iff (loads : Text → Option Json) (chunks : List Text) :
    ((parseModelResponse loads chunks.flatten).isFinal = false →
        ∀ c ∈ FinalAnswerDeltaFilter.emitted chunks, isSpace c = true) ↔
      ¬ (beforeFinal toolStart chunks.flatten = true ∧
        ∃ text, streamed [] chunks = some text ∧ ∃ c ∈ visible text, isSpace c = false) := by
  rw [FinalAnswerDeltaFilter.emitted_eq]
  constructor
  · rintro h ⟨htool, text, htext, c, hc, hspace⟩
    have hblank := h (isFinal_of_beforeFinal htool) c (by rw [htext]; exact hc)
    rw [hspace] at hblank
    cases hblank
  · intro h hfinal c hc
    by_contra hspace
    cases htext : streamed [] chunks with
    | none =>
        rw [htext] at hc
        cases hc
    | some text =>
        rw [htext] at hc
        -- without a `<tool` in front, the text is that of an empty answer
        have htool : beforeFinal toolStart chunks.flatten = false := by
          by_contra htool
          exact h ⟨by simpa using htool, text, htext, c, hc, by simpa using hspace⟩
        cases hstart : find finalOpen chunks.flatten with
        | none =>
            rw [streamed_eq_none hstart] at htext
            cases htext
        | some start =>
            have hpos := List.length_pos_iff.mpr finalOpen_ne_nil
            rw [streamed_of_final rfl hstart htool (by rw [List.length_nil]; omega)] at htext
            rw [parseModelResponse_of_final htool hstart] at hfinal
            by_cases hblank : answerAt chunks.flatten start = []
            · rw [← Option.some.inj htext] at hc
              exact hspace (isSpace_of_blank hblank c hc)
            · rw [if_neg hblank] at hfinal
              cases hfinal

/-- A call in JSON, and after it a chunk with an answer. -/
def callThenFinal : List Text :=
  [openTag toolName ++ closeTag toolName, openTag finalName ++ ['h', 'i'] ++ closeTag finalName]

theorem callThenFinal_leaks :
    ¬ ((parseModelResponse (fun _ => none) callThenFinal.flatten).isFinal = false →
      ∀ c ∈ FinalAnswerDeltaFilter.emitted callThenFinal, isSpace c = true) := by
  intro h
  have hspace := h rfl 'h' (by decide)
  revert hspace
  decide

end Agent
end CodeCub
