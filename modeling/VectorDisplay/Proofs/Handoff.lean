import VectorDisplay.Handoff
/-!
Hand-offs over any order of calls. An `Exchange` is a hand-off with all frames that its publishers saw
accepted and all that its subscriber was given. Main statement: the frames given and then those
pending are the accepted frames in their order, and from these two lists alone follows what every call
answers.
-/

set_option autoImplicit false

namespace VectorDisplay

namespace Handoff

variable {φ : Type} {h : Handoff φ}

theorem publish_eq (h : Handoff φ) (frame : φ) :
    h.publish frame =
      if h.subscribed then
        if h.pending.length < h.depth then .done { h with pending := h.pending ++ [frame] }
        else .waits
      else .failed noSubscriber := by
  cases hsub : h.subscribed with
  | false => simp [publish, hsub]
  | true =>
    by_cases hroom : h.pending.length < h.depth
    · simp [publish, isFull, hsub, hroom]
    · simp [publish, isFull, hsub, hroom, Nat.le_of_not_lt hroom]

theorem take_cons {frame : φ} {rest : List φ} (hpending : h.pending = frame :: rest) :
    h.take = .done (frame, { h with pending := rest, current := some frame }) := by
  simp [take, hpending]

theorem take_nil (hpending : h.pending = []) :
    h.take = if h.publishers = 0 then .failed noPublisher else .waits := by
  simp [take, hpending]

theorem tryTake_cons {frame : φ} {rest : List φ} (hpending : h.pending = frame :: rest) :
    h.tryTake = .ok (some frame, { h with pending := rest, current := some frame }) := by
  simp [tryTake, take_cons hpending]

theorem tryTake_nil (hpending : h.pending = []) :
    h.tryTake = if h.publishers = 0 then .error noPublisher else .ok (none, h) := by
  by_cases hnone : h.publishers = 0 <;> simp [tryTake, take_nil hpending, hnone]

theorem length_pending_of_tryTake {frame : φ} {rest : Handoff φ}
    (htake : h.tryTake = .ok (some frame, rest)) :
    rest.pending.length < h.pending.length := by
  cases hpending : h.pending with
  | nil =>
    rw [tryTake_nil hpending] at htake
    split at htake <;> cases htake
  | cons first others =>
    rw [tryTake_cons hpending] at htake
    cases htake
    simp

def drain (h : Handoff φ) : List φ × Handoff φ :=
  match htake : h.tryTake with
  | .ok (some frame, rest) =>
    have := length_pending_of_tryTake htake
    (frame :: rest.drain.1, rest.drain.2)
  | _ => ([], h)
termination_by h.pending.length

theorem drain_cons {frame : φ} {rest : Handoff φ} (htake : h.tryTake = .ok (some frame, rest)) :
    h.drain = (frame :: rest.drain.1, rest.drain.2) := by
  rw [drain]
  split
  · next heq =>
    rw [htake] at heq
    cases heq
    rfl
  · next hnot => exact absurd htake (hnot frame rest)

theorem drain_nil (hpending : h.pending = []) : h.drain = ([], h) := by
  rw [drain]
  split
  · next heq =>
    rw [tryTake_nil hpending] at heq
    split at heq <;> cases heq
  · rfl

theorem drain_eq (h : Handoff φ) : h.drain = (h.pending, h.refresh.2) := by
  induction hpending : h.pending generalizing h with
  | nil =>
    have hrefresh : h.refresh.2 = h := by
      cases h
      simp_all [refresh]
    rw [drain_nil hpending, hrefresh]
  | cons frame rest ih =>
    rw [drain_cons (tryTake_cons hpending), ih _ rfl]
    simp only [refresh, hpending, List.getLast?_cons]
    cases rest.getLast? <;> rfl

end Handoff

/-- A hand-off with all that went through it. -/
structure Exchange (φ : Type) where
  channel : Handoff φ
  accepted : List φ := []
  /-- The frames that the subscriber took, also those that it passed over for newer ones. -/
  delivered : List φ := []

namespace Exchange

variable {φ : Type}

inductive Call (φ : Type) where
  | publish (frame : φ)
  | tryPublish (frame : φ)
  | take
  | tryTake
  | refresh
  | look
  | addPublisher
  | dropPublisher
  | dropSubscriber

namespace Call

def addsPublisher : Call φ → Bool
  | addPublisher => true
  | _ => false

def dropsPublisher : Call φ → Bool
  | dropPublisher => true
  | _ => false

def dropsSubscriber : Call φ → Bool
  | dropSubscriber => true
  | _ => false

def keepsParties (c : Call φ) : Bool := !(c.addsPublisher || c.dropsPublisher || c.dropsSubscriber)

end Call

inductive Answer (φ : Type) where
  | done
  | frame (frame : φ)
  | nothing
  | count (n : Nat)
  | failed (error : Error)

def ofDepth (depth : Nat) : Exchange φ := { channel := .ofDepth depth }

/-- Someone is there to make a call. -/
def canCall (x : Exchange φ) : Call φ → Bool
  | .publish _ | .tryPublish _ | .addPublisher | .dropPublisher => x.channel.publishers ≠ 0
  | .take | .tryTake | .refresh | .look | .dropSubscriber => x.channel.subscribed

/-- What a call answers and leaves behind, unless it has to wait. -/
def perform (x : Exchange φ) : Call φ → Option (Answer φ × Exchange φ)
  | .publish frame =>
    match x.channel.publish frame with
    | .done channel => some (.done, { x with channel, accepted := x.accepted ++ [frame] })
    | .failed error => some (.failed error, x)
    | .waits => none
  | .tryPublish frame =>
    match x.channel.tryPublish frame with
    | .ok (none, channel) => some (.done, { x with channel, accepted := x.accepted ++ [frame] })
    | .ok (some back, channel) => some (.frame back, { x with channel })
    | .error error => some (.failed error, x)
  | .take =>
    match x.channel.take with
    | .done (frame, channel) =>
      some (.frame frame, { x with channel, delivered := x.delivered ++ [frame] })
    | .failed error => some (.failed error, x)
    | .waits => none
  | .tryTake =>
    match x.channel.tryTake with
    | .ok (some frame, channel) =>
      some (.frame frame, { x with channel, delivered := x.delivered ++ [frame] })
    | .ok (none, channel) => some (.nothing, { x with channel })
    | .error error => some (.failed error, x)
  | .refresh =>
    some (.count x.channel.refresh.1,
      { x with channel := x.channel.refresh.2, delivered := x.delivered ++ x.channel.drain.1 })
  | .look => some (x.channel.current.elim .nothing .frame, x)
  | .addPublisher => some (.done, { x with channel := x.channel.addPublisher })
  | .dropPublisher => some (.done, { x with channel := x.channel.dropPublisher })
  | .dropSubscriber => some (.done, { x with channel := x.channel.dropSubscriber })

def call (x : Exchange φ) (c : Call φ) : Option (Answer φ × Exchange φ) :=
  if x.canCall c then x.perform c else none

/-- The exchange after some calls, if each of them returns. -/
def after (x : Exchange φ) (calls : List (Call φ)) : Option (Exchange φ) :=
  calls.foldlM (fun x c => (x.call c).map (·.2)) x

section Steps

variable (x : Exchange φ) (frame : φ)

def accept : Exchange φ :=
  { x with
    channel := { x.channel with pending := x.channel.pending ++ [frame] }
    accepted := x.accepted ++ [frame] }

def deliver (n : Nat) : Exchange φ :=
  { x with
    channel := { x.channel with
      pending := x.channel.pending.drop n
      current := (x.channel.pending.take n).getLast?.or x.channel.current }
    delivered := x.delivered ++ x.channel.pending.take n }

theorem call_eq (c : Call φ) (hc : x.canCall c = true) : x.call c = x.perform c := if_pos hc

theorem perform_publish :
    x.perform (.publish frame) =
      if x.channel.subscribed then
        if x.channel.pending.length < x.channel.depth then some (.done, x.accept frame) else none
      else some (.failed Handoff.noSubscriber, x) := by
  rw [perform, Handoff.publish_eq]
  by_cases hsub : x.channel.subscribed = true
  · by_cases hroom : x.channel.pending.length < x.channel.depth <;> simp [hsub, hroom, accept]
  · simp [hsub]

theorem perform_tryPublish :
    x.perform (.tryPublish frame) =
      if x.channel.subscribed then
        if x.channel.pending.length < x.channel.depth then some (.done, x.accept frame)
        else some (.frame frame, x)
      else some (.failed Handoff.noSubscriber, x) := by
  rw [perform, Handoff.tryPublish, Handoff.publish_eq]
  by_cases hsub : x.channel.subscribed = true
  · by_cases hroom : x.channel.pending.length < x.channel.depth <;> simp [hsub, hroom, accept]
  · simp [hsub]

theorem perform_take :
    x.perform .take =
      match x.channel.pending.head? with
      | some frame => some (.frame frame, x.deliver 1)
      | none =>
        if x.channel.publishers = 0 then some (.failed Handoff.noPublisher, x) else none := by
  cases hpending : x.channel.pending with
  | nil =>
    by_cases hnone : x.channel.publishers = 0 <;>
      simp [perform, Handoff.take_nil hpending, hnone]
  | cons frame rest => simp [perform, Handoff.take_cons hpending, deliver, hpending]

theorem perform_tryTake :
    x.perform .tryTake =
      match x.channel.pending.head? with
      | some frame => some (.frame frame, x.deliver 1)
      | none =>
        if x.channel.publishers = 0 then some (.failed Handoff.noPublisher, x)
        else some (.nothing, x) := by
  cases hpending : x.channel.pending with
  | nil =>
    by_cases hnone : x.channel.publishers = 0 <;>
      simp [perform, Handoff.tryTake_nil hpending, hnone]
  | cons frame rest => simp [perform, Handoff.tryTake_cons hpending, deliver, hpending]

theorem perform_refresh :
    x.perform .refresh =
      some (.count x.channel.pending.length, x.deliver x.channel.pending.length) := by
  simp [perform, Handoff.drain_eq, Handoff.refresh, deliver]

end Steps

/-- What a call that returns may leave behind. -/
inductive Moves (x : Exchange φ) (c : Call φ) : Exchange φ → Prop where
  | stays (hc : c.keepsParties = true) : Moves x c x
  | accepts (hc : c.keepsParties = true) (frame : φ)
      (hroom : x.channel.pending.length < x.channel.depth) : Moves x c (x.accept frame)
  | delivers (hc : c.keepsParties = true) (n : Nat) : Moves x c (x.deliver n)
  | joins (hc : c = .addPublisher) : Moves x c { x with channel := x.channel.addPublisher }
  | parts (hc : c = .dropPublisher) : Moves x c { x with channel := x.channel.dropPublisher }
  | leaves (hc : c = .dropSubscriber) : Moves x c { x with channel := x.channel.dropSubscriber }

theorem moves_of_perform {x y : Exchange φ} {c : Call φ} {answer : Answer φ}
    (hc : x.perform c = some (answer, y)) : x.Moves c y := by
  cases c with
  | publish frame =>
    rw [perform_publish] at hc
    split at hc
    · split at hc
      · next hroom =>
        cases hc
        exact .accepts rfl frame hroom
      · cases hc
    · cases hc
      exact .stays rfl
  | tryPublish frame =>
    rw [perform_tryPublish] at hc
    split at hc
    · split at hc
      · next hroom =>
        cases hc
        exact .accepts rfl frame hroom
      · cases hc
        exact .stays rfl
    · cases hc
      exact .stays rfl
  | take =>
    rw [perform_take] at hc
    split at hc
    · cases hc
      exact .delivers rfl 1
    · split at hc <;> cases hc
      exact .stays rfl
  | tryTake =>
    rw [perform_tryTake] at hc
    split at hc
    · cases hc
      exact .delivers rfl 1
    · split at hc <;> cases hc <;> exact .stays rfl
  | refresh =>
    rw [perform_refresh] at hc
    cases hc
    exact .delivers rfl _
  | look =>
    cases hc
    exact .stays rfl
  | addPublisher =>
    cases hc
    exact .joins rfl
  | dropPublisher =>
    cases hc
    exact .parts rfl
  | dropSubscriber =>
    cases hc
    exact .leaves rfl

theorem call_eq_some_iff {x y : Exchange φ} {c : Call φ} {answer : Answer φ} :
    x.call c = some (answer, y) ↔ x.canCall c = true ∧ x.perform c = some (answer, y) := by
  unfold call
  split
  · next hc => simp [hc]
  · next hc => simp [hc]

theorem after_cons_eq_some {x y : Exchange φ} {c : Call φ} {rest : List (Call φ)}
    (h : x.after (c :: rest) = some y) :
    ∃ z, x.canCall c = true ∧ x.Moves c z ∧ z.after rest = some y := by
  obtain ⟨z, hz, hrest⟩ := Option.bind_eq_some_iff.1 h
  obtain ⟨⟨answer, z'⟩, hcall, rfl⟩ := Option.map_eq_some_iff.1 hz
  obtain ⟨hcan, hperform⟩ := call_eq_some_iff.1 hcall
  exact ⟨z', hcan, moves_of_perform hperform, hrest⟩

/-- Nothing was lost, duplicated or reordered. -/
structure Faithful (x : Exchange φ) (depth : Nat) : Prop where
  depth_eq : x.channel.depth = depth
  delivered_append_pending : x.delivered ++ x.channel.pending = x.accepted
  length_pending_le : x.channel.pending.length ≤ depth
  current_eq : x.channel.current = x.delivered.getLast?

namespace Faithful

variable {x y : Exchange φ} {depth : Nat}

theorem ofDepth (depth : Nat) : (ofDepth depth : Exchange φ).Faithful depth :=
  ⟨rfl, rfl, Nat.zero_le _, rfl⟩

theorem accept (h : x.Faithful depth) (hroom : x.channel.pending.length < x.channel.depth)
    (frame : φ) : (x.accept frame).Faithful depth where
  depth_eq := h.depth_eq
  delivered_append_pending := by
    simp only [Exchange.accept, ← List.append_assoc, h.delivered_append_pending]
  length_pending_le := by
    rw [h.depth_eq] at hroom
    simpa [Exchange.accept] using Nat.succ_le_of_lt hroom
  current_eq := h.current_eq

theorem deliver (h : x.Faithful depth) (n : Nat) : (x.deliver n).Faithful depth where
  depth_eq := h.depth_eq
  delivered_append_pending := by
    simp only [Exchange.deliver, List.append_assoc, List.take_append_drop,
      h.delivered_append_pending]
  length_pending_le := by
    simp only [Exchange.deliver, List.length_drop]
    exact Nat.le_trans (Nat.sub_le _ _) h.length_pending_le
  current_eq := by simp only [Exchange.deliver, List.getLast?_append, h.current_eq]

theorem of_parties (h : x.Faithful depth) (publishers : Nat) (subscribed : Bool) :
    Faithful { x with channel := { x.channel with publishers, subscribed } } depth :=
  ⟨h.depth_eq, h.delivered_append_pending, h.length_pending_le, h.current_eq⟩

theorem moves (h : x.Faithful depth) {c : Call φ} (hmoves : x.Moves c y) : y.Faithful depth := by
  cases hmoves with
  | stays => exact h
  | accepts _ frame hroom => exact h.accept hroom frame
  | delivers _ n => exact h.deliver n
  | joins => exact h.of_parties _ _
  | parts => exact h.of_parties _ _
  | leaves => exact h.of_parties _ _

theorem after (h : x.Faithful depth) {calls : List (Call φ)} (hcalls : x.after calls = some y) :
    y.Faithful depth := by
  induction calls generalizing x with
  | nil =>
    cases hcalls
    exact h
  | cons c rest ih =>
    obtain ⟨z, -, hmoves, hrest⟩ := after_cons_eq_some hcalls
    exact ih (h.moves hmoves) hrest

/-- The frame that the subscriber gets next is the first accepted one that it has not had. -/
theorem head?_pending (h : x.Faithful depth) :
    x.channel.pending.head? = x.accepted[x.delivered.length]? := by
  rw [← h.delivered_append_pending, List.getElem?_append_right (Nat.le_refl _), Nat.sub_self,
    List.head?_eq_getElem?]

theorem deliver_all (h : x.Faithful depth) :
    (x.deliver x.channel.pending.length).delivered = x.accepted ∧
      (x.deliver x.channel.pending.length).channel.pending = [] := by
  simp [Exchange.deliver, h.delivered_append_pending]

end Faithful

section Parties

variable {x y : Exchange φ} {c : Call φ} {calls : List (Call φ)}

/-- As many publishers were dropped as there ever were, the first one included. -/
def Unpublished (calls : List (Call φ)) : Prop :=
  calls.countP Call.dropsPublisher = calls.countP Call.addsPublisher + 1

instance (calls : List (Call φ)) : Decidable (Unpublished calls) :=
  inferInstanceAs (Decidable (_ = _))

theorem Call.eq_false_of_keepsParties (hc : c.keepsParties = true) :
    c.addsPublisher = false ∧ c.dropsPublisher = false ∧ c.dropsSubscriber = false := by
  simpa [Call.keepsParties, and_assoc] using hc

theorem Moves.publishers_add (hmoves : x.Moves c y) (hcan : x.canCall c = true) :
    y.channel.publishers + [c].countP Call.dropsPublisher =
      x.channel.publishers + [c].countP Call.addsPublisher := by
  cases hmoves with
  | stays hc => simp [Call.eq_false_of_keepsParties hc]
  | accepts hc => simp [accept, Call.eq_false_of_keepsParties hc]
  | delivers hc => simp [deliver, Call.eq_false_of_keepsParties hc]
  | joins hc =>
    subst hc
    rfl
  | parts hc =>
    subst hc
    have hsome : x.channel.publishers ≠ 0 := by simpa [canCall] using hcan
    exact Nat.sub_add_cancel (Nat.one_le_iff_ne_zero.2 hsome)
  | leaves hc =>
    subst hc
    rfl

theorem Moves.subscribed_iff (hmoves : x.Moves c y) :
    y.channel.subscribed = true ↔ x.channel.subscribed = true ∧ c.dropsSubscriber = false := by
  cases hmoves with
  | stays hc => simp [Call.eq_false_of_keepsParties hc]
  | accepts hc => simp [accept, Call.eq_false_of_keepsParties hc]
  | delivers hc => simp [deliver, Call.eq_false_of_keepsParties hc]
  | joins hc => simp [hc, Handoff.addPublisher, Call.dropsSubscriber]
  | parts hc => simp [hc, Handoff.dropPublisher, Call.dropsSubscriber]
  | leaves hc => simp [hc, Handoff.dropSubscriber, Call.dropsSubscriber]

theorem publishers_add_of_after (h : x.after calls = some y) :
    y.channel.publishers + calls.countP Call.dropsPublisher =
      x.channel.publishers + calls.countP Call.addsPublisher := by
  induction calls generalizing x with
  | nil =>
    cases h
    rfl
  | cons c rest ih =>
    obtain ⟨z, hcan, hmoves, hrest⟩ := after_cons_eq_some h
    have hstep := hmoves.publishers_add hcan
    have hrun := ih hrest
    rw [← List.singleton_append, List.countP_append, List.countP_append]
    omega

theorem subscribed_iff_of_after (h : x.after calls = some y) :
    y.channel.subscribed = true ↔
      x.channel.subscribed = true ∧ ∀ c ∈ calls, c.dropsSubscriber = false := by
  induction calls generalizing x with
  | nil =>
    cases h
    simp
  | cons c rest ih =>
    obtain ⟨z, -, hmoves, hrest⟩ := after_cons_eq_some h
    rw [ih hrest, hmoves.subscribed_iff, List.forall_mem_cons, and_assoc]

/-- Who is left of the parties. -/
structure Attended (x : Exchange φ) (calls : List (Call φ)) : Prop where
  publishers_add : x.channel.publishers + calls.countP Call.dropsPublisher =
    1 + calls.countP Call.addsPublisher
  subscribed_iff : x.channel.subscribed = true ↔ .dropSubscriber ∉ calls

theorem attended_of_after {depth : Nat} (h : (ofDepth depth).after calls = some x) :
    x.Attended calls where
  publishers_add := publishers_add_of_after h
  subscribed_iff := by
    have hstart : (ofDepth depth : Exchange φ).channel.subscribed = true := rfl
    have hdrops (c : Call φ) : c.dropsSubscriber = false ↔ c ≠ .dropSubscriber := by
      cases c <;> simp [Call.dropsSubscriber]
    rw [subscribed_iff_of_after h, hstart]
    simp only [hdrops, true_and]
    exact ⟨fun hne hmem => hne _ hmem rfl, fun hnot c hc heq => hnot (heq ▸ hc)⟩

theorem Attended.publishers_eq_zero_iff (h : x.Attended calls) :
    x.channel.publishers = 0 ↔ Unpublished calls := by
  have hadd := h.publishers_add
  unfold Unpublished
  omega

end Parties

/-- What each call answers after some others, told by these and by the frames that were accepted and
delivered. -/
structure Answers (x : Exchange φ) (depth : Nat) (calls : List (Call φ)) : Prop where
  publish : ¬ Unpublished calls → .dropSubscriber ∉ calls → ∀ frame,
    x.call (.publish frame) =
      if x.channel.pending.length < depth then some (.done, x.accept frame) else none
  tryPublish : ¬ Unpublished calls → .dropSubscriber ∉ calls → ∀ frame,
    x.call (.tryPublish frame) =
      some (if x.channel.pending.length < depth then (.done, x.accept frame) else (.frame frame, x))
  publish_deserted : ¬ Unpublished calls → .dropSubscriber ∈ calls → ∀ frame,
    x.call (.publish frame) = some (.failed Handoff.noSubscriber, x) ∧
      x.call (.tryPublish frame) = some (.failed Handoff.noSubscriber, x)
  take : .dropSubscriber ∉ calls →
    x.call .take =
      match x.accepted[x.delivered.length]? with
      | some frame => some (.frame frame, x.deliver 1)
      | none => if Unpublished calls then some (.failed Handoff.noPublisher, x) else none
  tryTake : .dropSubscriber ∉ calls →
    x.call .tryTake =
      match x.accepted[x.delivered.length]? with
      | some frame => some (.frame frame, x.deliver 1)
      | none => some (if Unpublished calls then .failed Handoff.noPublisher else .nothing, x)
  refresh : .dropSubscriber ∉ calls → ∃ y,
    x.call .refresh = some (.count (x.accepted.length - x.delivered.length), y) ∧
      y.delivered = x.accepted ∧ y.accepted = x.accepted ∧ y.channel.pending = []
  look : .dropSubscriber ∉ calls →
    x.call .look = some (x.delivered.getLast?.elim .nothing .frame, x)

section Calls

variable {x : Exchange φ} {depth : Nat} {calls : List (Call φ)}

theorem Attended.canCall_publish (h : x.Attended calls) (hpublished : ¬ Unpublished calls)
    (frame : φ) : x.canCall (.publish frame) = true ∧ x.canCall (.tryPublish frame) = true := by
  rw [← h.publishers_eq_zero_iff] at hpublished
  simp [canCall, hpublished]

theorem Faithful.answers (h : x.Faithful depth) (ha : x.Attended calls) :
    x.Answers depth calls where
  publish hpublished hstays frame := by
    rw [x.call_eq _ (ha.canCall_publish hpublished frame).1, perform_publish,
      if_pos (ha.subscribed_iff.2 hstays), h.depth_eq]
  tryPublish hpublished hstays frame := by
    rw [x.call_eq _ (ha.canCall_publish hpublished frame).2, perform_tryPublish,
      if_pos (ha.subscribed_iff.2 hstays), h.depth_eq]
    split <;> rfl
  publish_deserted hpublished hleaves frame := by
    have hdeserted : ¬ x.channel.subscribed = true := fun hsub => ha.subscribed_iff.1 hsub hleaves
    rw [x.call_eq _ (ha.canCall_publish hpublished frame).1, perform_publish,
      x.call_eq _ (ha.canCall_publish hpublished frame).2, perform_tryPublish]
    simp [hdeserted]
  take hstays := by
    rw [x.call_eq .take (ha.subscribed_iff.2 hstays), perform_take, h.head?_pending]
    simp only [ha.publishers_eq_zero_iff]
  tryTake hstays := by
    rw [x.call_eq .tryTake (ha.subscribed_iff.2 hstays), perform_tryTake, h.head?_pending]
    simp only [ha.publishers_eq_zero_iff]
    split
    · rfl
    · split <;> rfl
  refresh hstays := by
    have hlength : x.accepted.length - x.delivered.length = x.channel.pending.length := by
      simp [← h.delivered_append_pending]
    refine ⟨x.deliver x.channel.pending.length, ?_, h.deliver_all.1, rfl, h.deliver_all.2⟩
    rw [x.call_eq .refresh (ha.subscribed_iff.2 hstays), perform_refresh, hlength]
  look hstays := by
    rw [x.call_eq .look (ha.subscribed_iff.2 hstays), Exchange.perform, h.current_eq]

/-- After any calls, the frames that the subscriber was given and then those pending are the accepted
ones in their order. Publishers and the subscriber are there unless the calls dropped them, and every
call answers by this alone. -/
theorem handed_over_in_order (hcalls : (ofDepth depth).after calls = some x) :
    x.Faithful depth ∧ x.Attended calls ∧ x.Answers depth calls := by
  have hfaithful := (Faithful.ofDepth depth).after hcalls
  have hattended := attended_of_after hcalls
  exact ⟨hfaithful, hattended, hfaithful.answers hattended⟩

end Calls

theorem handed_over_in_order_full :
    ∃ x : Exchange Nat,
      (ofDepth 1).after [.publish 7, .tryPublish 8, .dropPublisher, .take] = some x ∧
        x.accepted = [7] ∧ x.Faithful 1 ∧ x.call .take = some (.failed Handoff.noPublisher, x) := by
  have hafter : (ofDepth 1).after [.publish 7, .tryPublish 8, .dropPublisher, .take] =
      some ⟨⟨1, [], some 7, 0, true⟩, [7], [7]⟩ := rfl
  obtain ⟨hfaithful, -, hanswers⟩ := handed_over_in_order hafter
  exact ⟨_, hafter, rfl, hfaithful, hanswers.take (by simp)⟩

end Exchange

end VectorDisplay
