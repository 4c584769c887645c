import GoREgo.Scheduler.Records

/-! What a notification does to the subscriber channels. Pointers to the notified record are
added while there is room, nothing is taken out or closed, and no subscriber of the name is
left with an empty channel.
-/

namespace GoREgo.Scheduler

/-- Offering a pointer keeps the channel's flag and pointers, adds at most that pointer, and
never leaves the channel empty.
-/
theorem Chan.offer_spec (chan : Chan) (ref : OpRef)
    : (chan.offer ref).closed = chan.closed
      ∧ (∀ update, update ∈ (chan.offer ref).buffer → update ∈ chan.buffer ∨ update = ref)
      ∧ (chan.offer ref).buffer ≠ [] := by
  unfold Chan.offer
  split
  next =>
    refine ⟨rfl, ?_, by simp⟩
    intro update member
    rcases List.mem_append.mp member with older | new
    · exact Or.inl older
    · exact Or.inr (List.mem_singleton.mp new)
  next full =>
    refine ⟨rfl, fun _ member => Or.inl member, ?_⟩
    intro empty
    rw [empty] at full
    exact full (by decide)

/-- The loop over the subscribers offers the pointer to exactly the listed channels, by
induction over the list.
-/
theorem foldl_offer (targets : List ChanRef) (chans : ChanRef → Chan) (ref : OpRef)
    (ch : ChanRef)
    : let result :=
        targets.foldl (fun chans ch => Function.update chans ch ((chans ch).offer ref)) chans
      (result ch).closed = (chans ch).closed
      ∧ (∀ update, update ∈ (result ch).buffer → update ∈ (chans ch).buffer ∨ update = ref)
      ∧ ((chans ch).buffer ≠ [] → (result ch).buffer ≠ [])
      ∧ (ch ∈ targets → (result ch).buffer ≠ [])
      ∧ (ch ∉ targets → result ch = chans ch) := by
  induction targets generalizing chans with
  | nil =>
      refine ⟨rfl, fun _ member => Or.inl member, fun filled => filled, ?_, fun _ => rfl⟩
      intro member
      cases member
  | cons head rest ih =>
      obtain ⟨closed, grows, keeps, wakes, others⟩ :=
        ih (Function.update chans head ((chans head).offer ref))
      by_cases same : ch = head
      · subst same
        rw [Function.update_self] at closed grows keeps
        obtain ⟨sameFlag, added, filled⟩ := Chan.offer_spec (chans ch) ref
        refine ⟨closed.trans sameFlag, ?_, fun _ => keeps filled, fun _ => keeps filled,
          fun absent => (absent List.mem_cons_self).elim⟩
        intro update member
        rcases grows update member with older | rfl
        · exact added update older
        · exact Or.inr rfl
      · rw [Function.update_of_ne same] at closed grows keeps others
        refine ⟨closed, grows, keeps, ?_, ?_⟩
        · intro member
          exact wakes (List.mem_of_ne_of_mem same member)
        · intro absent
          exact others (fun member => absent (List.mem_cons_of_mem _ member))

namespace State

variable {s s' : State} {name : String} {ref : OpRef}

/-- From `s` to `s'` at most the subscribers of `name` are notified, of the record tracked
under it; if a record changed, all of them are.
-/
structure Notifies (s s' : State) (name : String) : Prop where
  subscribers : s'.subscribers = s.subscribers
  nextChan : s'.nextChan = s.nextChan
  closed : ∀ ch, (s'.chans ch).closed = (s.chans ch).closed
  others : ∀ {ch}, ch ∉ s.subscribers name → s'.chans ch = s.chans ch
  grows
    : ∀ {ch update}, update ∈ (s'.chans ch).buffer
      → update ∈ (s.chans ch).buffer ∨ s.operations.lookup name = some update
  keeps : ∀ {ch}, (s.chans ch).buffer ≠ [] → (s'.chans ch).buffer ≠ []
  wakes : s' = s ∨ ∀ {ch}, ch ∈ s.subscribers name → (s'.chans ch).buffer ≠ []

theorem Notifies.refl (s : State) (name : String) : Notifies s s name :=
  ⟨rfl, rfl, fun _ => rfl, fun _ => rfl, Or.inl, fun filled => filled, Or.inl rfl⟩

theorem Notifies.store {count : Int} {op : OperationStatus}
    (tracked : s.operations.lookup name = some ref)
    : Notifies s (s.store name ref count op) name := by
  have offered (ch : ChanRef) := foldl_offer (s.subscribers name) s.chans ref ch
  refine ⟨rfl, rfl, fun ch => (offered ch).1, fun {ch} => (offered ch).2.2.2.2, ?_,
    fun {ch} => (offered ch).2.2.1, Or.inr (fun {ch} => (offered ch).2.2.2.1)⟩
  intro ch update member
  rcases (offered ch).2.1 update member with older | rfl
  · exact Or.inl older
  · exact Or.inr tracked

theorem updateState_notifies (s : State) (name : String) (state : OperationState)
    (metadata : ExecuteOperationMetadata) (now : Int)
    : Notifies s (s.updateState name state metadata now) name := by
  cases found : s.operations.lookup name with
  | none =>
      rw [updateState_untracked found]
      exact .refl s name
  | some ref =>
      rw [updateState_tracked found]
      exact .store found

theorem finish_notifies (s : State) (name : String)
    (record : OperationStatus → OperationStatus) (now : Int)
    : Notifies s (s.finish name record now) name := by
  cases found : s.operations.lookup name with
  | none =>
      rw [finish_untracked found]
      exact .refl s name
  | some ref =>
      rw [finish_tracked found]
      exact .store found

theorem cancelOperation_notifies (s : State) (name : String) (now : Int)
    : Notifies s (s.cancelOperation name now).1 name := by
  by_cases queued : ∃ ref, s.operations.lookup name = some ref ∧ (s.heap ref).state = .queued
  · obtain ⟨ref, tracked, queued⟩ := queued
    rw [cancelOperation_queued tracked queued]
    exact .store tracked
  · rw [cancelOperation_refused (fun ref tracked state => queued ⟨ref, tracked, state⟩)]
    exact .refl s name

variable {ch : ChanRef}

theorem mem_subscribe {other : String} (member : ch ∈ s.subscribers other)
    : ch ∈ (s.subscribe name).1.subscribers other := by
  simp only [subscribe]
  by_cases same : other = name
  · subst same
    rw [Function.update_self]
    exact List.mem_append_left _ member
  · rwa [Function.update_of_ne same]

theorem chans_subscribe (below : ch < s.nextChan)
    : (s.subscribe name).1.chans ch = s.chans ch := by
  simp [subscribe, Function.update_of_ne (Nat.ne_of_lt below)]

theorem receive?_spec {update : OpRef} {taken : State} (got : s.receive? ch = some (update, taken))
    : ∃ rest, (s.chans ch).buffer = update :: rest
        ∧ taken = { s with
            chans := Function.update s.chans ch { s.chans ch with buffer := rest } } := by
  unfold receive? at got
  split at got
  · cases got
  next head rest buffer =>
    obtain ⟨rfl, rfl⟩ := Prod.mk.inj (Option.some.inj got)
    exact ⟨rest, buffer, rfl⟩

theorem mem_subscribers_unsubscribe {other : String} {kept : ChanRef}
    (member : kept ∈ (s.unsubscribe name ch).subscribers other)
    : kept ∈ s.subscribers other := by
  unfold unsubscribe at member
  split at member
  · dsimp only at member
    by_cases same : other = name
    · subst same
      rw [Function.update_self] at member
      exact List.mem_of_mem_erase member
    · rwa [Function.update_of_ne same] at member
  · exact member

theorem mem_unsubscribe_of_ne {other : String} {kept : ChanRef} (apart : kept ≠ ch)
    (member : kept ∈ s.subscribers other)
    : kept ∈ (s.unsubscribe name ch).subscribers other := by
  unfold unsubscribe
  split
  · dsimp only
    by_cases same : other = name
    · subst same
      rw [Function.update_self]
      exact (List.mem_erase_of_ne apart).mpr member
    · rwa [Function.update_of_ne same]
  · exact member

theorem chans_unsubscribe {other : ChanRef} (apart : other ≠ ch)
    : (s.unsubscribe name ch).chans other = s.chans other := by
  unfold unsubscribe
  split
  · exact Function.update_of_ne apart ..
  · rfl

theorem mem_subscribers_cleanupExpired {now : Int} {other : String}
    (member : ch ∈ (s.cleanupExpired now).subscribers other)
    : ch ∈ s.subscribers other := by
  simp only [cleanupExpired] at member
  split at member
  · cases member
  · exact member

end State

end GoREgo.Scheduler
