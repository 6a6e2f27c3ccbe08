import Logme.ControlSession
import Mathlib.Logic.Function.Iterate

/-!
# The loop of the control handler

A connection is handled until a receive or a send fails.  The end of the stream
is told from data only on a TLS connection; on a plain one the receive call then
returns 0 bytes over and over, and each time an empty command is handled.
-/

namespace Logme
namespace ControlServer

/-- The loop of `ControlHandler` on one connection: what the receive calls will
return, `none` for an error and 0 bytes from the end of the list on, the commands
that were handled and the replies that were sent.  The connection is marked
`Stopped` when the loop is left. -/
structure Handler where
  session : ControlSession
  incoming : List (Option Name)
  commands : List Name
  replies : List Name
  stopped : Bool

/-- `recv` and `Read` -/
def receive : List (Option Name) → Option Name × List (Option Name)
  | [] => (some [], [])
  | received :: incoming => (received, incoming)

/-- A command is handled and its reply sent; `sends` has the results of the send
calls in their order. -/
def respond (server : ControlServer) (sends : Nat → Bool) (h : Handler) (command : Name) :
    Handler :=
  let handled := server.handle h.session command
  let h := { h with session := handled.session, commands := h.commands ++ [command] }
  match reply handled.response with
  | none => h
  | some text => { h with replies := h.replies ++ [text], stopped := !sends h.replies.length }

/-- One round of the loop, on a TLS connection or on a plain one. -/
def handlerStep (server : ControlServer) (tls : Bool) (sends : Nat → Bool) (h : Handler) :
    Handler :=
  if h.stopped then h
  else
    match receive h.incoming with
    | (none, incoming) => { h with incoming := incoming, stopped := true }
    | (some buff, incoming) =>
        if tls ∧ buff = [] then { h with incoming := incoming, stopped := true }
        else server.respond sends { h with incoming := incoming } buff

/-- The connection before the loop, with the chunks that will be received. -/
def opened (session : ControlSession) (chunks : List Name) : Handler :=
  ⟨session, chunks.map some, [], [], false⟩

/-- The loop ends, and only the chunks are handled and answered. -/
structure StopsAtEnd (server : ControlServer) (tls : Bool) (sends : Nat → Bool)
    (session : ControlSession) (chunks : List Name) : Prop where
  leaves : ∃ n, ((server.handlerStep tls sends)^[n] (opened session chunks)).stopped = true
  commands : ∀ n, ((server.handlerStep tls sends)^[n] (opened session chunks)).commands <+: chunks
  replies : ∀ n, ((server.handlerStep tls sends)^[n] (opened session chunks)).replies <+:
    (server.serve session chunks).replies

variable {server : ControlServer} {tls : Bool} {sends : Nat → Bool}

theorem handlerStep_of_stopped {h : Handler} (hstopped : h.stopped = true) :
    server.handlerStep tls sends h = h := by
  rw [handlerStep, if_pos hstopped]

theorem iterate_of_stopped {h : Handler} (hstopped : h.stopped = true) (n : Nat) :
    (server.handlerStep tls sends)^[n] h = h :=
  Function.iterate_fixed (handlerStep_of_stopped hstopped) n

theorem commands_respond (h : Handler) (command : Name) :
    (server.respond sends h command).commands = h.commands ++ [command] := by
  simp only [respond]
  split <;> rfl

/-- A chunk is handled, and the loop is left if its reply cannot be sent. -/
theorem handlerStep_chunk {session : ControlSession} {chunk : Name} (hchunk : chunk ≠ [])
    (incoming : List (Option Name)) (commands replies : List Name) :
    server.handlerStep tls sends ⟨session, some chunk :: incoming, commands, replies, false⟩ =
      ⟨(server.handle session chunk).session, incoming, commands ++ [chunk],
        replies ++ (reply (server.handle session chunk).response).toList,
        (reply (server.handle session chunk).response).isSome && !sends replies.length⟩ := by
  have hdata : ¬ (tls = true ∧ chunk = []) := fun h => hchunk h.2
  simp only [handlerStep, receive, if_neg hdata, respond]
  cases reply (server.handle session chunk).response with
  | none => simp
  | some text => simp

/-- The replies to the chunks, after those that were sent before, can be sent. -/
def AllSent (server : ControlServer) (sends : Nat → Bool) (session : ControlSession)
    (chunks : List Name) (sent : Nat) : Prop :=
  ∀ k < (server.serve session chunks).replies.length, sends (sent + k) = true

theorem allSent_cons {session : ControlSession} {chunk : Name} {chunks : List Name} {sent : Nat} :
    server.AllSent sends session (chunk :: chunks) sent ↔
      ((reply (server.handle session chunk).response).isSome → sends sent = true) ∧
      server.AllSent sends (server.handle session chunk).session chunks
        (sent + (reply (server.handle session chunk).response).toList.length) := by
  unfold AllSent
  rw [serve]
  cases reply (server.handle session chunk).response with
  | none => simp
  | some text =>
      simp only [Option.toList_some, List.singleton_append, List.length_cons, Option.isSome_some,
        forall_const, List.length_nil, Nat.zero_add]
      constructor
      · intro h
        refine ⟨h 0 (by omega), fun k hk => ?_⟩
        rw [Nat.add_assoc, Nat.add_comm 1 k]
        exact h (k + 1) (by omega)
      · rintro ⟨hfirst, hrest⟩ k hk
        cases k with
        | zero => exact hfirst
        | succ k =>
            rw [Nat.add_comm k 1, ← Nat.add_assoc]
            exact hrest k (by omega)

/-- The state after all chunks when every reply can be sent. -/
theorem iterate_chunks (tls : Bool) {chunks : List Name} (hchunks : ∀ chunk ∈ chunks, chunk ≠ [])
    {session : ControlSession} (commands replies : List Name)
    (hsent : server.AllSent sends session chunks replies.length) :
    (server.handlerStep tls sends)^[chunks.length]
        ⟨session, chunks.map some, commands, replies, false⟩ =
      ⟨(server.serve session chunks).session, [], commands ++ chunks,
        replies ++ (server.serve session chunks).replies, false⟩ := by
  induction chunks generalizing session commands replies with
  | nil => simp [serve]
  | cons chunk chunks ih =>
      obtain ⟨hfirst, hrest⟩ := allSent_cons.mp hsent
      have hstays : ((reply (server.handle session chunk).response).isSome &&
          !sends replies.length) = false := by
        cases hreply : (reply (server.handle session chunk).response).isSome with
        | false => rfl
        | true => rw [hfirst hreply]; rfl
      rw [List.length_cons, Function.iterate_succ_apply, List.map_cons,
        handlerStep_chunk (hchunks chunk List.mem_cons_self), hstays,
        ih (fun c hc => hchunks c (List.mem_cons_of_mem _ hc)) _ _ (by
          rwa [List.length_append])]
      simp [serve]

/-- Until the end of the stream only chunks are handled and answered. -/
theorem iterate_prefix {chunks : List Name} (hchunks : ∀ chunk ∈ chunks, chunk ≠ [])
    {session : ControlSession} (commands replies : List Name) {n : Nat}
    (hn : n ≤ chunks.length) :
    ((server.handlerStep tls sends)^[n]
        ⟨session, chunks.map some, commands, replies, false⟩).commands <+: commands ++ chunks ∧
      ((server.handlerStep tls sends)^[n]
        ⟨session, chunks.map some, commands, replies, false⟩).replies <+:
          replies ++ (server.serve session chunks).replies := by
  induction n generalizing chunks session commands replies with
  | zero => exact ⟨List.prefix_append _ _, List.prefix_append _ _⟩
  | succ n ih =>
      cases chunks with
      | nil => cases hn
      | cons chunk chunks =>
          have hcommands : commands ++ chunk :: chunks = commands ++ [chunk] ++ chunks :=
            List.append_cons commands chunk chunks
          rw [Function.iterate_succ_apply, List.map_cons,
            handlerStep_chunk (hchunks chunk List.mem_cons_self), serve, hcommands,
            ← List.append_assoc]
          cases hstopped : (reply (server.handle session chunk).response).isSome &&
              !sends replies.length with
          | true =>
              rw [iterate_of_stopped rfl]
              exact ⟨List.prefix_append _ _, List.prefix_append _ _⟩
          | false =>
              exact ih (fun c hc => hchunks c (List.mem_cons_of_mem _ hc)) _ _
                (Nat.le_of_succ_le_succ hn)

/-- A reply that cannot be sent ends the loop. -/
theorem exists_stopped (tls : Bool) {chunks : List Name} (hchunks : ∀ chunk ∈ chunks, chunk ≠ [])
    {session : ControlSession} (commands replies : List Name)
    (hfails : ¬ server.AllSent sends session chunks replies.length) :
    ∃ n ≤ chunks.length, ((server.handlerStep tls sends)^[n]
      ⟨session, chunks.map some, commands, replies, false⟩).stopped = true := by
  induction chunks generalizing session commands replies with
  | nil => exact absurd (fun k hk => absurd hk (Nat.not_lt_zero k)) hfails
  | cons chunk chunks ih =>
      rw [allSent_cons, not_and_or] at hfails
      cases hstopped : (reply (server.handle session chunk).response).isSome &&
          !sends replies.length with
      | true =>
          refine ⟨1, Nat.succ_le_succ (Nat.zero_le _), ?_⟩
          rw [Function.iterate_one, List.map_cons,
            handlerStep_chunk (hchunks chunk List.mem_cons_self)]
          exact hstopped
      | false =>
          have hrest : ¬ server.AllSent sends (server.handle session chunk).session chunks
              (replies ++ (reply (server.handle session chunk).response).toList).length := by
            rcases hfails with hfirst | hrest
            · refine absurd (fun hsome => ?_) hfirst
              rw [hsome, Bool.true_and, Bool.not_eq_false'] at hstopped
              exact hstopped
            · rwa [List.length_append]
          obtain ⟨n, hn, hleft⟩ := ih (fun c hc => hchunks c (List.mem_cons_of_mem _ hc))
            (commands ++ [chunk]) _ hrest
          refine ⟨n + 1, Nat.succ_le_succ hn, ?_⟩
          rw [Function.iterate_succ_apply, List.map_cons,
            handlerStep_chunk (hchunks chunk List.mem_cons_self), hstopped]
          exact hleft

/-- Once the loop is left nothing follows. -/
theorem stopsAtEnd_of_stopped {session : ControlSession} {chunks : List Name} (last : Nat)
    (hstopped : ((server.handlerStep tls sends)^[last] (opened session chunks)).stopped = true)
    (hbefore : ∀ n ≤ last,
      ((server.handlerStep tls sends)^[n] (opened session chunks)).commands <+: chunks ∧
        ((server.handlerStep tls sends)^[n] (opened session chunks)).replies <+:
          (server.serve session chunks).replies) :
    server.StopsAtEnd tls sends session chunks := by
  have hall : ∀ n,
      ((server.handlerStep tls sends)^[n] (opened session chunks)).commands <+: chunks ∧
        ((server.handlerStep tls sends)^[n] (opened session chunks)).replies <+:
          (server.serve session chunks).replies := by
    intro n
    rcases Nat.le_total n last with hn | hn
    · exact hbefore n hn
    · obtain ⟨more, rfl⟩ := Nat.exists_eq_add_of_le hn
      rw [Nat.add_comm, Function.iterate_add_apply, iterate_of_stopped hstopped]
      exact hbefore last (Nat.le_refl last)
  exact ⟨⟨last, hstopped⟩, fun n => (hall n).1, fun n => (hall n).2⟩

/-- On a plain connection the handler stops at the end of the stream exactly if
it never comes there: the reply to a chunk could not be sent. -/
theorem plain_stopsAtEnd_iff (server : ControlServer) (sends : Nat → Bool)
    (session : ControlSession) (chunks : List Name)
    (hchunks : ∀ chunk ∈ chunks, chunk ≠ [] ∧ chunk.length ≤ 4096) :
    server.StopsAtEnd false sends session chunks ↔
      ∃ k < (server.serve session chunks).replies.length, sends k = false := by
  have hdata : ∀ chunk ∈ chunks, chunk ≠ [] := fun chunk hchunk => (hchunks chunk hchunk).1
  constructor
  · intro h
    by_contra hnone
    have hsent : server.AllSent sends session chunks ([] : List Name).length := by
      intro k hk
      rw [List.length_nil, Nat.zero_add, ← Bool.not_eq_false]
      exact fun hfalse => hnone ⟨k, hk, hfalse⟩
    have hend := iterate_chunks false hdata [] [] hsent
    have hcommands := (h.commands (chunks.length + 1)).length_le
    rw [Function.iterate_succ_apply', opened, hend] at hcommands
    change (server.respond sends ⟨_, [], [] ++ chunks, _, false⟩ []).commands.length ≤ _
      at hcommands
    rw [commands_respond, List.nil_append, List.length_append, List.length_singleton]
      at hcommands
    exact Nat.not_succ_le_self _ hcommands
  · rintro ⟨k, hk, hfalse⟩
    have hfails : ¬ server.AllSent sends session chunks ([] : List Name).length := by
      intro hsent
      have htrue := hsent k hk
      rw [List.length_nil, Nat.zero_add, hfalse] at htrue
      cases htrue
    obtain ⟨last, hlast, hstopped⟩ := exists_stopped false hdata [] [] hfails
    exact stopsAtEnd_of_stopped last hstopped fun n hn =>
      iterate_prefix hdata [] [] (Nat.le_trans hn hlast)

theorem plain_stopsAtEnd_closed :
    extendedServer.StopsAtEnd false (fun _ => false) ⟨false, consoleState⟩ [ascii "list"] :=
  (plain_stopsAtEnd_iff extendedServer _ _ _ (by simp [ascii])).mpr ⟨0, by decide, rfl⟩

/-- With a peer that takes every reply the loop is never left. -/
theorem plain_runs_forever (server : ControlServer) (session : ControlSession)
    (chunks : List Name) (n : Nat) :
    ((server.handlerStep false fun _ => true)^[n] (opened session chunks)).stopped = false := by
  have hstep : ∀ h : Handler, none ∉ h.incoming ∧ h.stopped = false →
      none ∉ (server.handlerStep false (fun _ => true) h).incoming ∧
        (server.handlerStep false (fun _ => true) h).stopped = false := by
    rintro h ⟨hincoming, hruns⟩
    simp only [handlerStep, hruns, Bool.false_eq_true, if_false, false_and]
    cases hnext : h.incoming with
    | nil =>
        simp only [receive, respond]
        split <;> simp
    | cons received incoming =>
        rw [hnext] at hincoming
        obtain ⟨hreceived, hrest⟩ := not_or.mp (List.mem_cons.not.mp hincoming)
        cases received with
        | none => exact absurd rfl hreceived
        | some buff =>
            simp only [receive, respond]
            split <;> exact ⟨hrest, rfl⟩
  have hrun : none ∉ ((server.handlerStep false fun _ => true)^[n]
      (opened session chunks)).incoming ∧
      ((server.handlerStep false fun _ => true)^[n] (opened session chunks)).stopped = false := by
    induction n with
    | zero => exact ⟨by simp [opened], rfl⟩
    | succ n ih =>
        rw [Function.iterate_succ_apply']
        exact hstep _ ih
  exact hrun.2

/-- The peer closes its side at once and reads on: empty commands are handled
for ever. -/
theorem plain_handles_end :
    ¬ extendedServer.StopsAtEnd false (fun _ => true) ⟨false, consoleState⟩ [] ∧
      ∀ n, ((extendedServer.handlerStep false fun _ => true)^[n]
        (opened ⟨false, consoleState⟩ [])).stopped = false := by
  refine ⟨fun h => ?_, plain_runs_forever extendedServer _ []⟩
  have hcommands := (h.commands 1).length_le
  exact absurd hcommands (by decide)

/-- A TLS connection always stops. -/
theorem tls_stopsAtEnd (server : ControlServer) (sends : Nat → Bool) (session : ControlSession)
    (chunks : List Name) (hchunks : ∀ chunk ∈ chunks, chunk ≠ []) :
    server.StopsAtEnd true sends session chunks := by
  by_cases hsent : server.AllSent sends session chunks ([] : List Name).length
  · have hend := iterate_chunks true hchunks [] [] hsent
    have hleft : (server.handlerStep true sends)^[chunks.length + 1] (opened session chunks) =
        ⟨(server.serve session chunks).session, [], chunks,
          (server.serve session chunks).replies, true⟩ := by
      rw [Function.iterate_succ_apply', opened, hend]
      rfl
    refine stopsAtEnd_of_stopped (chunks.length + 1) (by rw [hleft]) fun n hn => ?_
    rcases Nat.lt_or_eq_of_le hn with hn | rfl
    · exact iterate_prefix hchunks [] [] (Nat.le_of_lt_succ hn)
    · rw [hleft]
      exact ⟨List.prefix_rfl, List.prefix_rfl⟩
  · obtain ⟨last, hlast, hstopped⟩ := exists_stopped true hchunks [] [] hsent
    exact stopsAtEnd_of_stopped last hstopped fun n hn =>
      iterate_prefix hchunks [] [] (Nat.le_trans hn hlast)

theorem tls_stopsAtEnd_list :
    extendedServer.StopsAtEnd true (fun _ => true) ⟨false, consoleState⟩ [ascii "list"] :=
  tls_stopsAtEnd extendedServer _ _ _ (by simp [ascii])

end ControlServer
end Logme
