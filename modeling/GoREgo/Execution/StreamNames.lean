import GoREgo.Execution.TaskOwnership

/-! The messages of one stream are about one operation: a handler keeps to the name that its
`Enqueue` or its `WaitExecution` request gave it, and whatever it reads under that name
carries the name.
-/

namespace GoREgo.Execution

open Scheduler

def Pc.About (name : String) : Pc → Prop
  | .idle | .returned _ => True
  | .enqueueing task _ => task.name = name
  | .replying op => op.name = name
  | .subscribing other first => other = name ∧ ∀ op, first = some op → op.name = name
  | .greeting other _ op | .sending other _ _ op => other = name ∧ op.name = name
  | .completing other _ | .fetching other | .receiving other _ | .received other _ _
  | .checking other _ _ | .unsubscribing other _ _ => other = name

structure Handler.Keeps (name : String) (handler : Handler) : Prop where
  sent : ∀ op ∈ handler.sent, op.name = name
  pc : handler.pc.About name
  silent : handler.pc = .idle → handler.sent = []

section Moves

variable {handler handler' : Handler} {name : String} {sched sched' : State} {move : Move}

theorem Handler.Keeps.goes (keeps : handler.Keeps name) (sent : handler'.sent = handler.sent)
    (about : handler'.pc.About name) (called : handler'.pc ≠ .idle)
    : handler'.Keeps name where
  sent := sent ▸ keeps.sent
  pc := about
  silent idle := absurd idle called

theorem Handler.Keeps.sends (keeps : handler.Keeps name) {op : Operation}
    (ready : op.name = name) (sent : handler'.sent = handler.sent ++ [op])
    (about : handler'.pc.About name) (called : handler'.pc ≠ .idle)
    : handler'.Keeps name where
  sent other member := by
    rw [sent] at member
    rcases List.mem_append.mp member with before | last
    · exact keeps.sent other before
    · rw [List.mem_singleton.mp last]
      exact ready
  pc := about
  silent idle := absurd idle called

theorem Handler.Keeps.called (keeps : handler.Keeps name) (idle : handler.pc = .idle)
    {other : String} (sent : handler'.sent = handler.sent) (about : handler'.pc.About other)
    (called : handler'.pc ≠ .idle)
    : handler'.Keeps other where
  sent op member := by
    rw [sent, keeps.silent idle] at member
    cases member
  pc := about
  silent idle := absurd idle called

theorem getOperation_name (wf : sched.WellFormed) {op : Operation}
    (found : sched.getOperation name = .ok op)
    : op.name = name := by
  obtain ⟨ref, tracked, rfl⟩ := State.getOperation_ok found
  exact wf.named tracked

theorem Handler.Keeps.moved (keeps : handler.Keeps name) (wf : sched.WellFormed)
    (moved : handler.Moved sched move sched' handler')
    : ∃ name, handler'.Keeps name := by
  have about : ∀ pc, handler.pc = pc → pc.About name := fun _ same => same ▸ keeps.pc
  cases moved with
  | complete pc | skip pc | resume pc | receive pc | closed pc | stop pc =>
      have same := about _ pc
      exact ⟨name, keeps.goes rfl same nofun⟩
  | greetFailed pc | reportFailed pc => exact ⟨name, keeps.goes rfl (about _ pc).1 nofun⟩
  | unsubscribe | fetchGone | replyFailed => exact ⟨name, keeps.goes rfl trivial nofun⟩
  | fetch pc found =>
      obtain rfl := about _ pc
      exact ⟨_, keeps.goes rfl (getOperation_name wf found) nofun⟩
  | snapshot pc found =>
      obtain rfl := about _ pc
      exact ⟨_, keeps.goes rfl ⟨rfl, getOperation_name wf found⟩ nofun⟩
  | reply pc => exact ⟨name, keeps.sends (about _ pc) rfl trivial nofun⟩
  | greet pc | report pc =>
      obtain ⟨same, ready⟩ := about _ pc
      exact ⟨name, keeps.sends ready rfl same nofun⟩
  | @subscribe _ first pc =>
      obtain ⟨same, ready⟩ := about _ pc
      cases first with
      | none => exact ⟨name, keeps.goes rfl same nofun⟩
      | some op => exact ⟨name, keeps.goes rfl ⟨same, ready op rfl⟩ nofun⟩
  | waitGone => exact ⟨name, keeps.goes rfl trivial nofun⟩
  | @waitDone _ op pc => exact ⟨op.name, keeps.called pc rfl rfl nofun⟩
  | @wait waited op pc => exact ⟨waited, keeps.called pc rfl ⟨rfl, fun _ => nofun⟩ nofun⟩

theorem Handler.Moved.sent_grows (moved : handler.Moved sched move sched' handler')
    : handler.sent <+: handler'.sent := by
  cases moved with
  | reply | greet | report => exact List.prefix_append _ _
  | _ => exact List.prefix_rfl

end Moves

namespace System

variable {W H : Type} [DecidableEq W] [DecidableEq H] {s s' : System W H} {label : Label W H}

/-- What a step does to the handlers: one call, one handler after its `Enqueue`, one move, or
nothing.
-/
theorem Effect.handlers_forall (effect : s.Effect label s') {P : H → Handler → Prop}
    (same : ∀ h, P h (s.handlers h))
    (refused : ∀ h kind outcome, (s.handlers h).pc = .idle →
      P h { s.handlers h with kind, pc := .returned outcome })
    (called : ∀ h kind task request, (s.handlers h).pc = .idle →
      P h { s.handlers h with kind, pc := .enqueueing task request })
    (inserted : ∀ h task request, (s.handlers h).pc = .enqueueing task request →
      P h { s.handlers h with pc := afterEnqueue task request })
    (moves : ∀ h move sched' handler', (s.handlers h).Moved s.sched move sched' handler' →
      P h handler')
    : ∀ h, P h (s'.handlers h) := by
  have updated : ∀ {h handler}, P h handler →
      ∀ other, P other (Function.update s.handlers h handler other) :=
    fun here => (Function.forall_update_iff _ P).mpr ⟨here, fun other _ => same other⟩
  cases effect with
  | full _ idle => exact updated (refused _ _ _ idle)
  | sent _ idle | handed _ idle => exact updated (called _ _ _ _ idle)
  | insert pc => exact updated (inserted _ _ _ pc)
  | quiet moved => exact updated (moves _ _ _ _ moved)
  | completed _ pc => exact updated (moves _ (.complete 0) _ _ (.complete pc))
  | dequeue | updateState | finish | cancelOperation | deleteOperation | cleanupExpired =>
      exact same

theorem keeps_effect (owned : s.Owned) (keeps : ∀ h, ∃ name, (s.handlers h).Keeps name)
    (effect : s.Effect label s')
    : ∀ h, ∃ name, (s'.handlers h).Keeps name := by
  refine effect.handlers_forall (P := fun _ handler => ∃ name, handler.Keeps name) keeps
    ?_ ?_ ?_ ?_
  · intro h kind outcome idle
    obtain ⟨name, keeps⟩ := keeps h
    exact ⟨name, keeps.goes rfl trivial nofun⟩
  · intro h kind task request idle
    obtain ⟨name, keeps⟩ := keeps h
    exact ⟨task.name, keeps.called idle rfl rfl nofun⟩
  · intro h task request pc
    obtain ⟨name, keeps⟩ := keeps h
    have same : task.name = name := by simpa only [pc, Pc.About] using keeps.pc
    cases request with
    | cached => exact ⟨name, keeps.goes rfl same nofun⟩
    | execute =>
        refine ⟨name, keeps.goes rfl ⟨same, ?_⟩ nofun⟩
        rintro op ⟨⟩
        exact same
  · intro h move sched' handler' moved
    obtain ⟨name, keeps⟩ := keeps h
    exact keeps.moved owned.wellFormed moved

theorem Effect.sent_grows (effect : s.Effect label s') (h : H)
    : (s.handlers h).sent <+: (s'.handlers h).sent := by
  refine effect.handlers_forall (P := fun h handler => (s.handlers h).sent <+: handler.sent)
    (fun _ => List.prefix_rfl) (fun _ _ _ _ => List.prefix_rfl)
    (fun _ _ _ _ _ => List.prefix_rfl) (fun _ _ _ _ => List.prefix_rfl) ?_ h
  intro h move sched' handler' moved
  exact moved.sent_grows

theorem keeps_inductive
    : (machine : Lib.Machine (System W H) (Label W H)).Inductive Lib.Machine.anyStep
        (fun s => s.Owned ∧ ∀ h, ∃ name, (s.handlers h).Keeps name) := by
  refine owned_inductive.strengthen ?_ ?_
  · rintro s ⟨queueSize, nodeID, rfl⟩ h
    exact ⟨"", List.forall_mem_nil _, trivial, fun _ => rfl⟩
  · intro s label s' owned keeps _ taken
    exact keeps_effect owned keeps (step_effect taken)

/-- A stream is about one operation, in every interleaving: what was sent on it stays, and all
its messages carry the same name.
-/
theorem stream_about_one_operation {labels : List (Label W H)}
    (reach : machine.Reachable Lib.Machine.anyStep s)
    (run : machine.Run Lib.Machine.anyStep s labels s') (h : H)
    : (s.handlers h).sent <+: (s'.handlers h).sent
      ∧ ∃ name, ∀ op ∈ (s'.handlers h).sent, op.name = name := by
  obtain ⟨name, keeps⟩ := (keeps_inductive.reachable (reach.after run)).2 h
  refine ⟨?_, name, keeps.sent⟩
  refine run.preserves (P := fun s' => (s.handlers h).sent <+: (s'.handlers h).sent) ?_
    List.prefix_rfl
  exact fun _ _ _ before _ taken => before.trans ((step_effect taken).sent_grows h)

theorem first_message_names_operation
    : ∃ s : System (Fin 2) (Fin 2), (s.handlers 0).sent.length = 1
        ∧ ∃ name, ∀ op ∈ (s.handlers 0).sent, op.name = name := by
  obtain ⟨s, run, one⟩ := Lib.Machine.exists_run_of_exec machine testNode
    [.enqueue 0 (.execute sampleDigest false "") sampleUUID 0 none, .insert 0,
      .handler 0 .subscribe, .handler 0 (.send none)]
    (fun s => (s.handlers 0).sent.length = 1) (by decide)
  exact ⟨s, of_decide_eq_true one,
    (stream_about_one_operation (.start ⟨100, "test-node", rfl⟩) run 0).2⟩

end System

end GoREgo.Execution
