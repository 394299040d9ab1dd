/-
What a turn publishes, and what it stores.

* `Returns` — what the graph returns once it has emitted its tokens;
* `framesOf` — the text of the frames on the bus;
* `Faultless`, `Fine` — nothing that the turn awaits raises, and then it does what it should;
* `Sent` — the publisher has sent what the stripper has let through;
* `spoken`, `stored`, `wp_runTurn_completed` — what a turn that completes has published, and its
  row;
* `Seamless`, `seamless_iff` — when what is streamed is what is stored, without citations.
-/
import SmartFoodOps.Assistant.Streaming

open Interaction Interaction.Task Spacing

namespace Assistant

open Coroutine

/-! ### The graph -/

/-- `REFUSAL`. -/
def refusal : String :=
  "I can't advise on allergies, intolerances or medical questions — I'd be " ++
    "guessing with something that matters. Restaurants list their own dietary " ++
    "tags on each dish, but those are the restaurant's description and not a " ++
    "safety guarantee. Please check directly with the restaurant, or with a " ++
    "medical professional, before ordering."

/-- `NO_MATCH`. -/
def noMatch : String :=
  "I couldn't find anything on the menus near you that matches that. " ++
    "Try a different dish, or widen the search."

/-- `ground`, of what `generate` has collected. -/
def groundTurn (tokens : List String) (candidates : List Passage) : GraphState :=
  let grounded := validate (String.join tokens) (candidates.map Passage.itemId)
  let cited := Dict.index Passage.itemId candidates
  { answer := grounded.text
    itemIds := grounded.itemIds
    restaurantIds := (grounded.itemIds.filterMap fun i =>
      (cited.get i).map Passage.restaurantId).dedup.insertionSort (· ≤ ·)
    candidates := candidates.length
    dropped := grounded.dropped }

/-- The node cites what the answer as a whole cites. -/
theorem ground_eq (tokens : List String) (candidates : List Passage) :
    ground (String.join tokens) candidates = ⟨(groundTurn tokens candidates).itemIds,
      (groundTurn tokens candidates).restaurantIds, (groundTurn tokens candidates).dropped⟩ := by
  unfold groundTurn ground
  rw [validate_eq]

/-- What the graph returns when it has emitted the tokens: `guard` and `retrieve_node` answer
without a model. -/
inductive Returns : List String → GraphState → Prop
  | refused (reason : String) :
      Returns [] { answer := refusal, refusalReason := reason, stopped := .refused }
  | noMatch : Returns [] { answer := noMatch, stopped := .noMatch }
  | grounded (tokens : List String) (candidates : List Passage) :
      Returns tokens (groundTurn tokens candidates)

/-! ### What has been published -/

def Op.text : Op → List Char
  | .publish _ _ frame => frame.text.toList
  | _ => []

/-- The text of the frames, in their order. -/
def framesOf : History Answer → List Char
  | [] => []
  | x :: h => framesOf h ++ x.1.text

/-- Nothing that the turn itself awaits has raised. -/
def Faultless (h : History Answer) : Prop := ∀ x ∈ h, x.1.place = .turn → raises x = false

/-- The coroutine returns, and `Q` holds; it raises only what has been raised to it. -/
def Fine {α : Type} (Q : α → Memory → History Answer → Prop) :
    Except Raised α → Memory → History Answer → Prop
  | .ok a, m, h => Q a m h
  | .error _, _, h => ¬ Faultless h

section

variable {α β : Type} {m : Memory} {h h' : History Answer} {turn : Turn} {place : Place}
  {x : Sigma Answer} {Q : α → Memory → History Answer → Prop}

theorem framesOf_cons (hx : x.1.text = []) : framesOf (x :: h) = framesOf h := by
  show framesOf h ++ x.1.text = framesOf h
  rw [hx, List.append_nil]

theorem Faultless.of_suffix (hf : Faultless h') (hs : h <:+ h') : Faultless h :=
  fun x hx => hf x (hs.subset hx)

theorem not_faultless (hplace : x.1.place = .turn) (hr : raises x = true) : ¬ Faultless (x :: h) := by
  intro hf
  rw [hf x List.mem_cons_self hplace] at hr
  cases hr

theorem fine_bind {y : Coroutine α} {f : α → Coroutine β} {R : α → Memory → History Answer → Prop}
    {Q : β → Memory → History Answer → Prop} (hy : y.Wp (Fine R) m h)
    (hf : ∀ a m h, R a m h → (f a).Wp (Fine Q) m h) : (y >>= f).Wp (Fine Q) m h :=
  Wp.bind hy hf fun _ _ _ he => he

theorem fine_mono {y : Coroutine α} {R : α → Memory → History Answer → Prop}
    (hy : y.Wp (Fine R) m h) (hQ : ∀ a m h, R a m h → Q a m h) : y.Wp (Fine Q) m h := by
  refine hy.mono ?_
  rintro (e | a) m h hr
  · exact hr
  · exact hQ a m h hr

/-- What has been answered before stays so. -/
theorem fine_mem {y : Coroutine α} (hy : y.Wp (Fine Q) m h) (hx : x ∈ h) :
    y.Wp (Fine fun a m h => Q a m h ∧ x ∈ h) m h := by
  refine (hy.and (wp_suffix y)).mono ?_
  rintro (e | a) m h ⟨hr, hs⟩
  · exact hr
  · exact ⟨hr, hs.subset hx⟩

theorem fine_await {o : Op} {Q : o.Value → Memory → History Answer → Prop} (hplace : o.place = .turn)
    (hQ : ∀ r a, o.result r = .ok a → Q a m (⟨o, r⟩ :: h)) : (Coroutine.await o).Wp (Fine Q) m h := by
  refine wp_await.mpr fun r => ?_
  rcases hr : o.result r with e | a
  · refine not_faultless hplace ?_
    unfold raises
    rw [hr]
  · exact hQ r a hr

theorem fine_when {y : Coroutine Unit} {c : Bool} {Q : Unit → Memory → History Answer → Prop}
    (hy : c = true → y.Wp (Fine Q) m h) (hc : c = false → Q () m h) :
    (Coroutine.when c y).Wp (Fine Q) m h := by
  cases c with
  | true => exact hy rfl
  | false => exact hc rfl

/-! ### Sending -/

theorem toList_join_append (texts : List String) (text : String) :
    (String.join (texts ++ [text])).toList = (String.join texts).toList ++ text.toList := by
  rw [String.toList_join, String.toList_join, List.flatMap_append, List.flatMap_singleton]

/-- What the stripper has let through has been sent, and the row is still streaming. -/
structure Sent (m : Memory) (h : History Answer) (s : Stripper) (said : List Char) : Prop where
  stripper : m.publisher.stripper = s
  text : (String.join m.publisher.text).toList = said
  isEmpty : m.publisher.text.isEmpty = said.isEmpty
  frames : framesOf h = said
  started : m.db = .started

variable {s : Stripper} {said : List Char}

/-- Waiting for a reader says nothing. -/
theorem fine_attached (hs : Sent m h s said) :
    (attached turn .turn).Wp (Fine fun _ m h => Sent m h s said) m h := by
  unfold attached
  rw [wp_bind, wp_get]
  refine fine_when (fun _ => ?_) fun _ => hs
  rw [wp_bind, wp_modify]
  refine fine_when (fun _ => fine_await (o := .ready .turn _) rfl fun r a _ => ?_) fun _ => ?_
  · exact ⟨hs.stripper, hs.text, hs.isEmpty, (framesOf_cons rfl).trans hs.frames, hs.started⟩
  · exact ⟨hs.stripper, hs.text, hs.isEmpty, hs.frames, hs.started⟩

theorem fine_release {out : List Char × Stripper} (hs : Sent m h s said) :
    (release turn .turn out).Wp (Fine fun _ m h => Sent m h out.2 (said ++ out.1)) m h := by
  unfold release
  rw [wp_bind, wp_modify]
  have hs' : Sent { m with publisher := { m.publisher with stripper := out.2 } } h out.2 said :=
    ⟨rfl, hs.text, hs.isEmpty, hs.frames, hs.started⟩
  refine fine_when (fun hout => ?_) fun hout => ?_
  · refine fine_bind (fine_attached hs') fun _ m h hs => ?_
    rw [wp_bind, wp_modify]
    refine fine_await (o := .publish .turn _ _) rfl fun r a _ =>
      ⟨hs.stripper, ?_, ?_, ?_, hs.started⟩
    · show (String.join (m.publisher.text ++ [String.ofList out.1])).toList = _
      rw [toList_join_append, hs.text, String.toList_ofList]
    · show (m.publisher.text ++ [String.ofList out.1]).isEmpty = _
      have hne : out.1 ≠ [] := by simpa using hout
      have hleft : (m.publisher.text ++ [String.ofList out.1]).isEmpty = false := by simp
      have hright : (said ++ out.1).isEmpty = false := by simp [hne]
      rw [hleft, hright]
    · show framesOf h ++ (String.ofList out.1).toList = _
      rw [hs.frames, String.toList_ofList]
  · have hnil : out.1 = [] := by simpa using hout
    rw [hnil, List.append_nil]
    exact hs'

theorem fine_emit {text : String} (hs : Sent m h s said) : (emit turn .turn text).Wp
    (Fine fun _ m h => Sent m h (s.push text.toList).2 (said ++ (s.push text.toList).1)) m h := by
  unfold emit
  rw [wp_bind, wp_get]
  show (release turn .turn (m.publisher.stripper.push text.toList)).Wp _ m h
  rw [hs.stripper]
  exact fine_release hs

theorem fine_flush (hs : Sent m h s said) :
    (flush turn .turn).Wp (Fine fun _ m h => Sent m h s.flush.2 (said ++ s.flush.1)) m h := by
  unfold flush
  rw [wp_bind, wp_get]
  show (release turn .turn m.publisher.stripper.flush).Wp _ m h
  rw [hs.stripper]
  exact fine_release hs

/-- **The graph's tokens** go through the stripper, and then it returns. -/
theorem fine_invoke {tokens : List String} (hs : Sent m h s said) : (invoke turn tokens).Wp
    (Fine fun state m h => Sent m h (s.feed tokens).2 (said ++ (s.feed tokens).1) ∧
      (⟨.graph, .ok state⟩ : Sigma Answer) ∈ h) m h := by
  induction tokens generalizing m h s said with
  | nil =>
    refine fine_await (o := .graph) rfl fun r state hr => ⟨?_, ?_⟩
    · show Sent m _ s (said ++ [])
      rw [List.append_nil]
      exact ⟨hs.stripper, hs.text, hs.isEmpty, (framesOf_cons rfl).trans hs.frames, hs.started⟩
    · have hr : r = .ok state := hr
      rw [hr]
      exact List.mem_cons_self
  | cons token tokens ih =>
    refine fine_bind (fine_emit hs) fun _ m h hs => fine_mono (ih hs) ?_
    rintro state m h ⟨hs, hstate⟩
    rw [List.append_assoc] at hs
    exact ⟨hs, hstate⟩

/-! ### Settling -/

/-- A row that is streaming is settled, with nothing more to read. -/
theorem fine_settle {row : MessageRow} {fact : Fact} (hstarted : m.db = .started) :
    (settle .turn row fact).Wp
      (Fine fun _ m' h' => m'.db.message = row ∧ framesOf h' = framesOf h) m h := by
  have hstatus : m.db.message.status = .streaming := by
    rw [hstarted]
    rfl
  have hraised : ∀ {o : Op} {r : Answer o} {h : History Answer}, o.place = .turn →
      raises ⟨o, r⟩ = true → ¬ Faultless (⟨o, r⟩ :: h) := fun hplace hr => not_faultless hplace hr
  refine wp_inSession (R := Fine fun _ m' h' => m'.db.message = row ∧ framesOf h' = framesOf h)
    ?_ ?_ fun _ _ _ _ => hraised rfl rfl
  · refine wp_bind.mpr (wp_finishMessage.mpr ⟨?_, hraised rfl rfl⟩)
    rw [if_pos hstatus]
    show Wp (stageInteraction .turn fact >>= fun _ => _) _ _ _
    refine wp_bind.mpr (wp_stageInteraction.mpr ⟨?_, hraised rfl rfl⟩)
    show Wp (Coroutine.commit .turn >>= fun _ => pure true) _ _ _
    refine wp_bind.mpr (wp_commit.mpr fun c => ?_)
    rcases c with _ | applied
    · exact ⟨rfl, (framesOf_cons rfl).trans ((framesOf_cons rfl).trans (framesOf_cons rfl))⟩
    · exact hraised rfl rfl
  · rintro (e | a) m' h' hr
    · exact fun hf => hr (hf.of_suffix (List.suffix_cons _ h'))
    · exact ⟨hr.1, (framesOf_cons rfl).trans hr.2⟩

/-! ### The turn -/

/-- What goes through the stripper: the tokens and, if nothing came of them, the answer that the
graph returned. -/
def relayed (tokens : List String) (answer : String) : List String :=
  if (Stripper.feed {} tokens).1 = [] then
    tokens ++ [if answer.isEmpty then citationsOnly else answer]
  else tokens

/-- What a turn sends. -/
def spoken (tokens : List String) (answer : String) : List Char := streamed (relayed tokens answer)

/-- What it stores. -/
def stored (tokens : List String) (answer : String) : List Char :=
  if answer.isEmpty then spoken tokens answer else answer.toList

theorem feed_append (s : Stripper) (tokens tokens' : List String) : s.feed (tokens ++ tokens') =
    ((s.feed tokens).1 ++ ((s.feed tokens).2.feed tokens').1, ((s.feed tokens).2.feed tokens').2) := by
  induction tokens generalizing s with
  | nil => rfl
  | cons token tokens ih =>
    show ((s.push token.toList).1 ++ ((s.push token.toList).2.feed (tokens ++ tokens')).1,
      ((s.push token.toList).2.feed (tokens ++ tokens')).2) = _
    rw [ih]
    refine Prod.ext ?_ rfl
    exact (List.append_assoc _ _ _).symm

/-- A turn that has completed has published what is spoken, and stored what is to be. -/
def Completed (tokens : List String) (m : Memory) (h : History Answer) : Prop :=
  ∃ state, (⟨.graph, .ok state⟩ : Sigma Answer) ∈ h ∧ framesOf h = spoken tokens state.answer ∧
    m.db.message.content.toList = stored tokens state.answer

/-- If the stream has come to nothing, the graph's answer is sent through the same stripper. -/
theorem fine_answer {tokens : List String} {answer : String}
    (hs : Sent m h (Stripper.feed {} tokens).2 (Stripper.feed {} tokens).1) :
    (Coroutine.when m.publisher.text.isEmpty
      (emit turn .turn (if answer.isEmpty then citationsOnly else answer))).Wp
        (Fine fun _ m h => Sent m h (Stripper.feed {} (relayed tokens answer)).2
          (Stripper.feed {} (relayed tokens answer)).1) m h := by
  unfold relayed
  generalize (if answer.isEmpty then citationsOnly else answer) = text
  have hempty := hs.isEmpty
  by_cases hnil : (Stripper.feed {} tokens).1 = []
  · rw [if_pos hnil, feed_append]
    refine fine_when (fun _ => ?_) fun hno => ?_
    · show (emit turn .turn text).Wp (Fine fun _ m h => Sent m h _ (_ ++ (_ ++ []))) m h
      rw [List.append_nil]
      exact fine_emit hs
    · exfalso
      rw [hnil, hno] at hempty
      cases hempty
  · rw [if_neg hnil]
    refine fine_when (fun hyes => ?_) fun _ => hs
    exfalso
    rw [hyes] at hempty
    exact hnil (List.isEmpty_iff.mp hempty.symm)

theorem fine_answerTurn {tokens : List String} (hs : Sent m h {} []) :
    (answerTurn turn tokens).Wp (Fine fun _ m h => Completed tokens m h) m h := by
  refine fine_bind (fine_invoke hs) ?_
  rintro state m h ⟨hs, hstate⟩
  rw [List.nil_append] at hs
  rw [wp_bind, wp_modify]
  show (get >>= _).Wp _ _ _
  rw [wp_bind, wp_get]
  have hs' : Sent { m with itemIds := state.itemIds } h (Stripper.feed {} tokens).2
      (Stripper.feed {} tokens).1 := ⟨hs.stripper, hs.text, hs.isEmpty, hs.frames, hs.started⟩
  refine fine_bind (fine_mem (fine_answer hs') hstate) ?_
  rintro - m h ⟨hs, hstate⟩
  refine fine_bind (fine_mem (fine_flush hs) hstate) ?_
  rintro - m h ⟨hs, hstate⟩
  have hspoken : (String.join m.publisher.text).toList = spoken tokens state.answer := hs.text
  have hframes : framesOf h = spoken tokens state.answer := hs.frames
  rw [wp_bind, wp_get]
  refine fine_bind (fine_mem (fine_settle hs.started) hstate) ?_
  rintro settled m' h' ⟨⟨hrow, hsame⟩, hstate⟩
  have hcontent : m'.db.message.content.toList = stored tokens state.answer := by
    rw [hrow]
    unfold stored
    by_cases hempty : state.answer.isEmpty = true
    · rw [if_pos hempty, if_pos hempty]
      exact hspoken
    · rw [if_neg hempty, if_neg hempty]
  have hframes' := hsame.trans hframes
  refine fine_when (fun _ => ?_) fun _ => ⟨state, hstate, hframes', hcontent⟩
  refine fine_await (o := .shown _ _ _) rfl fun r a _ => ?_
  exact ⟨state, List.mem_cons_of_mem _ hstate, (framesOf_cons rfl).trans hframes', hcontent⟩

/-- The terminal frame has no text. -/
theorem wp_close_silent {itemIds : List String} : (close turn .closing itemIds).Wp
    (fun _ m' h' => m'.db = m.db ∧ framesOf h' = framesOf h) m h := by
  have hattached : (attached turn .closing).Wp
      (fun _ m' h' => m'.db = m.db ∧ framesOf h' = framesOf h) m h := by
    unfold attached
    rw [wp_bind, wp_get]
    show (Coroutine.when (! m.publisher.waited) _).Wp _ m h
    cases m.publisher.waited with
    | true => exact ⟨rfl, rfl⟩
    | false =>
      show (modify _ >>= _).Wp _ m h
      rw [wp_bind, wp_modify]
      show (Coroutine.when turn.awaitsReader _).Wp _ _ h
      cases turn.awaitsReader with
      | true => exact wp_await.mpr fun r => ⟨rfl, framesOf_cons rfl⟩
      | false => exact ⟨rfl, rfl⟩
  unfold close
  refine Wp.bind hattached (fun _ m' h' hr => ?_) fun _ _ _ hr => hr
  refine wp_await.mpr fun r => ⟨hr.1, Eq.trans (framesOf_cons ?_) hr.2⟩
  exact String.toList_empty

/-- **A turn in which nothing is raised** completes. -/
theorem wp_runTurn_completed {tokens : List String} (hs : Sent m h {} []) :
    (runTurn turn tokens).Wp (fun _ m h => Faultless h → Completed tokens m h) m h := by
  refine Wp.tryFinally (R := fun _ m h => Faultless h → Completed tokens m h) ?_ ?_
  · refine wp_tryCatch.mpr ((fine_answerTurn hs).mono ?_)
    rintro (e | a) m h hr
    · exact (wp_suffix _).mono fun _ m' h' hsuffix hf => absurd (hf.of_suffix hsuffix) hr
    · exact fun _ => hr
  · intro r m h hr
    rw [wp_bind, wp_get]
    refine (wp_close_silent.and (wp_suffix _)).mono ?_
    rintro r' m' h' ⟨⟨hdb, hframes⟩, hsuffix⟩
    have hend : Faultless h' → Completed tokens m' h' := by
      intro hf
      obtain ⟨state, hstate, hspoken, hcontent⟩ := hr (hf.of_suffix hsuffix)
      refine ⟨state, hsuffix.subset hstate, hframes.trans hspoken, ?_⟩
      rw [hdb]
      exact hcontent
    cases r' with
    | ok _ => exact hend
    | error _ => exact hend

end

/-! ### What is published is what is stored -/

/-- What is streamed is what is stored, without citations. -/
structure Seamless (tokens : List String) : Prop where
  streamed : ∀ texts, String.join texts = String.join tokens →
    solid isSpace (streamed texts) = solid isSpace (streamed [String.join tokens]) ∧
      marker.occurs (streamed texts) = false ∧ ∀ allowed, solid isSpace (streamed texts) =
        solid isSpace (validate (String.join tokens) allowed).text.toList
  checked : ∀ allowed, marker.occurs (validate (String.join tokens) allowed).text.toList = false ∧
    Cites (markersOf (String.join tokens)) allowed
      (validate (String.join tokens) allowed).itemIds (validate (String.join tokens) allowed).dropped
  settled : ∀ turn r m h, Ends (runTurn turn tokens {}) [] (r, m) h → Faultless h →
    (∀ state, (⟨.graph, .ok state⟩ : Sigma Answer) ∈ h → Returns tokens state) →
      solid isSpace (framesOf h) = solid isSpace m.db.message.content.toList

/-- When the graph has ended, nothing has been sent, but the stripper holds a citation that has
begun. -/
def Unheard (tokens : List String) : Prop :=
  (Stripper.feed {} tokens).1 = [] ∧ (Stripper.feed {} tokens).2.held ≠ []

/-- It depends on where the answer is cut. -/
example : Unheard ["[i[item:a]"] ∧ ¬ Unheard ["[i[item:", "a]"] :=
  ⟨⟨by decide, by decide⟩, fun h => absurd h.1 (by decide)⟩

section

variable {tokens : List String} {state : GraphState} {s : List Char}

/-- The bracket at the end of a citation. -/
theorem not_occurs_of_not_mem (hs : ']' ∉ s) : ¬ Occurs IsMarker s := by
  rintro ⟨m, hm, hin⟩
  obtain ⟨w, rfl, -⟩ := hm.exists_eq
  refine hs (hin.subset (List.mem_cons_of_mem _ ?_))
  exact List.mem_append_right w List.mem_cons_self

theorem unspaced_of_not_mem (hs : ']' ∉ s) : unspaced s = s :=
  strips_markerSpace.del_eq_self (not_occurs_of_not_mem hs)

theorem not_mem_refusal : ']' ∉ refusal.toList := by
  unfold refusal
  simp only [String.toList_append, List.mem_append, not_or]
  and_intros
  all_goals
    rw [String.toList_ofList]
    decide

theorem not_mem_noMatch : ']' ∉ noMatch.toList := by
  unfold noMatch
  simp only [String.toList_append, List.mem_append, not_or]
  and_intros
  all_goals
    rw [String.toList_ofList]
    decide

/-- An answer that the graph returns has no citation in it, unless there was a torn one. -/
theorem Returns.unspaced_answer (h : Returns tokens state) (ht : ¬ Torn (String.join tokens)) :
    unspaced state.answer.toList = state.answer.toList := by
  cases h with
  | refused reason => exact unspaced_of_not_mem not_mem_refusal
  | noMatch => exact unspaced_of_not_mem not_mem_noMatch
  | grounded tokens candidates =>
    exact strips_markerSpace.del_eq_self fun hs => ht ((occurs_textOf _).mp hs)

/-- If nothing was sent, the text that follows is read behind what is held. -/
theorem solid_streamed_append (hnil : (Stripper.feed {} tokens).1 = []) (text : String) :
    solid isSpace (streamed (tokens ++ [text])) =
      solid isSpace (unspaced ((Stripper.feed {} tokens).2.held ++ text.toList)) := by
  unfold streamed
  rw [feed_append, hnil]
  show solid isSpace ([] ++ ((Stripper.push _ _).1 ++ []) ++ _) = _
  rw [List.nil_append, List.append_nil]
  exact Stripper.solid_push_flush text.toList

/-- **What a turn sends is what it stores**, up to white space. -/
theorem solid_spoken (h : Returns tokens state) (hn : ¬ Nested (String.join tokens))
    (ht : ¬ Torn (String.join tokens)) (hu : ¬ Unheard tokens) :
    solid isSpace (spoken tokens state.answer) = solid isSpace (stored tokens state.answer) := by
  unfold stored
  by_cases hempty : state.answer.isEmpty = true
  · rw [if_pos hempty]
  rw [if_neg hempty]
  unfold spoken relayed
  by_cases hnil : (Stripper.feed {} tokens).1 = []
  · have hheld : (Stripper.feed {} tokens).2.held = [] := by
      by_contra hne
      exact hu ⟨hnil, hne⟩
    rw [if_pos hnil, if_neg hempty, solid_streamed_append hnil, hheld, List.nil_append,
      h.unspaced_answer ht]
  · rw [if_neg hnil, solid_streamed hn]
    cases h with
    | refused reason => exact absurd rfl hnil
    | noMatch => exact absurd rfl hnil
    | grounded tokens candidates => rfl

/-! ### A turn in which everything goes well -/

/-- Every answer is given, and the graph returns `state`. -/
def answering (state : GraphState) (_ : History Answer) : (o : Op) → Answer o
  | .ready _ _ | .publish _ _ _ | .shown _ _ _ => .ok ()
  | .graph => .ok state
  | .statement _ | .closeSession _ => false
  | .commit _ => .done

theorem exists_ends (turn : Turn) (tokens : List String) (state : GraphState) :
    ∃ r m h, Ends (runTurn turn tokens {}) [] (r, m) h ∧ Faultless h ∧
      ∀ state', (⟨.graph, .ok state'⟩ : Sigma Answer) ∈ h → state' = state := by
  have hends := ends_runWith (answering state) (h := []) (p := runTurn turn tokens {})
  have hmem := fun x => mem_runWith (answering state) (h := []) (p := runTurn turn tokens {}) (x := x)
  generalize runWith (answering state) (runTurn turn tokens {}) [] = e at hends hmem
  obtain ⟨⟨r, m⟩, h⟩ := e
  refine ⟨r, m, h, hends, ?_, ?_⟩
  · rintro ⟨o, a⟩ hx -
    rcases hmem _ hx with hx | ⟨h', heq⟩
    · cases hx
    · have heq : a = answering state h' o := heq
      rw [heq]
      cases o <;> rfl
  · intro state' hx
    rcases hmem _ hx with hx | ⟨h', heq⟩
    · cases hx
    · have heq : (Except.ok state' : Except Raised GraphState) = .ok state := heq
      cases heq
      rfl

theorem completed_of_ends {turn : Turn} {r : Except Raised Unit} {m : Memory} {h : History Answer}
    (hends : Ends (runTurn turn tokens {}) [] (r, m) h) (hf : Faultless h) :
    Completed tokens m h := by
  have hstart : Sent {} [] {} [] := ⟨rfl, String.toList_empty, rfl, rfl, rfl⟩
  exact Holds.of_ends hends (wp_runTurn_completed hstart) hf

/-- **An answer that was not heard** is sent twice. -/
theorem not_unheard (hs : Seamless tokens) : ¬ Unheard tokens := by
  rintro ⟨hnil, hne⟩
  obtain ⟨r, m, h, hends, hf, hstate⟩ := exists_ends dinnerTurn tokens (groundTurn tokens [])
  obtain ⟨state, hmem, hframes, hcontent⟩ := completed_of_ends hends hf
  obtain rfl := hstate state hmem
  have hturn := hs.settled _ _ _ _ hends hf fun state' hmem' => by
    rw [hstate state' hmem']
    exact .grounded tokens []
  have htext : (groundTurn tokens []).answer = textOf (String.join tokens) := rfl
  rw [hframes, hcontent, htext] at hturn
  -- all of the answer is what is held
  have hsolid : solid isSpace (textOf (String.join tokens)).toList =
      solid isSpace (Stripper.feed {} tokens).2.held := by
    have hall : streamed tokens = (Stripper.feed {} tokens).2.flush.1 := by
      show (Stripper.feed {} tokens).1 ++ (Stripper.feed {} tokens).2.flush.1 = _
      rw [hnil, List.nil_append]
    have hshown := (hs.streamed tokens rfl).2.2 []
    rw [hall] at hshown
    exact hshown.symm.trans (Stripper.solid_spaced _)
  have hbegun := (Stripper.held_feed (s := {}) tokens (.inl rfl)).resolve_left hne
  obtain ⟨t, ht, hclean⟩ := hbegun.exists_eq
  have hopen : solid isSpace (Stripper.feed {} tokens).2.held ≠ [] := by
    rw [ht, solid_cons (by decide)]
    exact List.cons_ne_nil _ _
  have hclose : ']' ∉ (Stripper.feed {} tokens).2.held := by
    rw [ht, List.mem_cons, not_or]
    exact ⟨by decide, fun hmem => (hclean _ hmem).2 rfl⟩
  have hclose' : ']' ∉ (textOf (String.join tokens)).toList := by
    intro hmem
    have hsolid' : ']' ∈ solid isSpace (textOf (String.join tokens)).toList :=
      List.mem_filter.mpr ⟨hmem, by decide⟩
    rw [hsolid] at hsolid'
    exact hclose (List.mem_filter.mp hsolid').1
  have hempty : ¬ (textOf (String.join tokens)).isEmpty = true := by
    intro hempty
    rw [String.isEmpty_iff.mp hempty, String.toList_empty] at hsolid
    exact hopen hsolid.symm
  unfold stored spoken relayed at hturn
  rw [if_neg hempty, if_pos hnil, if_neg hempty, solid_streamed_append hnil, unspaced_of_not_mem
    (fun hmem => (List.mem_append.mp hmem).elim hclose hclose'), solid_append, hsolid] at hturn
  exact hopen (List.append_left_eq_self.mp hturn)

/-- **When what is streamed is what is stored**: no citation is written with others in it, or with
white space before its points and colons, and a citation that has only begun is not all there is. -/
theorem seamless_iff (tokens : List String) : Seamless tokens ↔
    ¬ Nested (String.join tokens) ∧ ¬ Torn (String.join tokens) ∧ ¬ Unheard tokens := by
  constructor
  · intro hs
    have hjoin : String.join [String.join tokens] = String.join tokens :=
      String.toList_injective (by rw [String.toList_join, List.flatMap_singleton])
    refine ⟨fun hn => ?_, fun ht => ?_, not_unheard hs⟩
    · have hnone := occurs_marker_eq_false.mp (hs.streamed _ hjoin).2.1
      exact hnone ((occurs_streamed_singleton _).mpr hn)
    · exact occurs_marker_eq_false.mp (hs.checked []).1 ((occurs_textOf _).mpr ht)
  · rintro ⟨hn, ht, hu⟩
    have hsolid : ∀ texts, String.join texts = String.join tokens →
        solid isSpace (streamed texts) = solid isSpace (textOf (String.join tokens)).toList := by
      intro texts hjoin
      rw [← hjoin]
      exact solid_streamed (by rw [hjoin]; exact hn)
    have hjoin : String.join [String.join tokens] = String.join tokens :=
      String.toList_injective (by rw [String.toList_join, List.flatMap_singleton])
    constructor
    · intro texts htexts
      refine ⟨(hsolid texts htexts).trans (hsolid _ hjoin).symm, ?_, fun _ => hsolid texts htexts⟩
      exact occurs_marker_eq_false.mpr (not_occurs_streamed (by rw [htexts]; exact hn))
    · intro allowed
      refine ⟨occurs_marker_eq_false.mpr fun hs => ht ((occurs_textOf _).mp hs), ?_⟩
      exact cites_validate _ allowed
    · intro turn r m h hends hf hreturns
      obtain ⟨state, hmem, hframes, hcontent⟩ := completed_of_ends hends hf
      rw [hframes, hcontent]
      exact solid_spoken (hreturns state hmem) hn ht hu

/-- **The seams show**: a citation in a citation is sent, a citation with a space in it is stored,
and an answer that is the beginning of a citation is sent twice. -/
theorem seams_show : ¬ Seamless ["[item:[item:x]y]"] ∧ ¬ Seamless ["[item:a .b]"] ∧
    ¬ Seamless ["[item:x"] := by
  refine ⟨fun hs => ?_, fun hs => ?_, fun hs => ?_⟩
  · have hno := (hs.streamed _ rfl).2.1
    revert hno
    decide
  · have hno := (hs.checked []).1
    revert hno
    decide
  · exact not_unheard hs ⟨by decide, by decide⟩

end

end Assistant
