import Logme.ControlAnswers
import Logme.ControlPermissions

/-!
# Sessions of the control server

Every chunk that the receive call of a connection returns is taken for a whole
command.  Until the session is authorised, on a server with a password, only the
commands `auth` and `help` are admitted.
-/

namespace Logme

/-- The server of a session; without a password it is empty. -/
structure ControlServer where
  env : ControlEnvironment
  extension : Option ControlExtension
  policy : ControlPolicy
  password : Name

structure ControlSession where
  authorized : Bool
  state : ControlState

/-- What one round of the loop of `ControlHandler` leads to. -/
structure Handled where
  session : ControlSession
  calls : List ControlCall
  response : Name

/-- What stands after `auth`. -/
def authPass (command : Name) : Name :=
  trimBlanks (splitRemainderAfterWords command ((getCommandName command).2 + 1))

namespace ControlServer

def isAuth (command : Name) : Bool := (getCommandName command).1 = ascii "auth"

def isHelp (command : Name) : Bool := (getCommandName command).1 = ascii "help"

/-- `Control`, called with the policy of the server. -/
def execute (server : ControlServer) (session : ControlSession) (command : Name) : Handled :=
  let executed := control server.env server.extension server.policy session.state command
  ⟨{ session with state := executed.state }, executed.calls, executed.response⟩

/-- One round of the loop of `ControlHandler`, up to the line end of the response. -/
def handle (server : ControlServer) (session : ControlSession) (command : Name) : Handled :=
  if isAuth command then
    if server.password = [] then ⟨{ session with authorized := true }, [], ascii "ok"⟩
    else if authPass command ≠ [] ∧ authPass command = server.password then
      ⟨{ session with authorized := true }, [], ascii "ok"⟩
    else ⟨session, [], ascii "error: invalid password"⟩
  else if isHelp command then server.execute session command
  else if server.password ≠ [] ∧ session.authorized = false then
    ⟨session, [], ascii "error: unauthorized"⟩
  else server.execute session command

/-- What is sent: a response ends with a line end, and an empty one is not sent. -/
def reply (response : Name) : Option Name :=
  if response = [] then none
  else if response.getLast? = some 0x0A then some response
  else some (response ++ [0x0A])

/-- What a connection has led to: the commands that were handled, the calls made
for them, and the replies. -/
structure Served where
  session : ControlSession
  commands : List Name
  calls : List ControlCall
  replies : List Name

/-- The loop of `ControlHandler` over the chunks received. -/
def serve (server : ControlServer) (session : ControlSession) : List Name → Served
  | [] => ⟨session, [], [], []⟩
  | chunk :: rest =>
      let handled := server.handle session chunk
      let later := server.serve handled.session rest
      ⟨later.session, chunk :: later.commands, handled.calls ++ later.calls,
        (reply handled.response).toList ++ later.replies⟩

/-- A chunk that authenticates with the password of the server. -/
def Authenticates (server : ControlServer) (chunk : Name) : Prop :=
  isAuth chunk = true ∧ authPass chunk = server.password

/-! ## Help -/

/-- The calls that `help` may lead to: its own handler, and the extension for a
command that `named` allows, if the policy allows it. -/
def HelpCall (server : ControlServer) (named : Name → Prop) (call : ControlCall) : Prop :=
  call = .builtin (ascii "help") ∨
    (∃ command, call = .extension command ∧ named command) ∧
      server.policy.allowExtensions = true

/-- The state after the calls of the extension. -/
def afterCall (server : ControlServer) (s : ControlState) : ControlCall → ControlState
  | .extension command =>
      match server.extension with
      | none => s
      | some extension => (extension command s).2
  | .builtin _ => s

/-- What a command may lead to before authentication. -/
structure Harmless (server : ControlServer) (named : Name → Prop) (s s' : ControlState)
    (calls : List ControlCall) : Prop where
  helpOnly : ∀ call ∈ calls, server.HelpCall named call
  state : s' = calls.foldl server.afterCall s

variable {server : ControlServer} {named : Name → Prop}

theorem Harmless.refl (s : ControlState) : server.Harmless named s s [] := ⟨nofun, rfl⟩

theorem Harmless.trans {s₁ s₂ s₃ : ControlState} {first second : List ControlCall}
    (h₁ : server.Harmless named s₁ s₂ first) (h₂ : server.Harmless named s₂ s₃ second) :
    server.Harmless named s₁ s₃ (first ++ second) where
  helpOnly call hcall := by
    rcases List.mem_append.mp hcall with hfirst | hsecond
    · exact h₁.helpOnly call hfirst
    · exact h₂.helpOnly call hsecond
  state := by rw [h₂.state, h₁.state, List.foldl_append]

theorem Harmless.mono {named' : Name → Prop} {s s' : ControlState} {calls : List ControlCall}
    (h : server.Harmless named s s' calls) (hnamed : ∀ command, named command → named' command) :
    server.Harmless named' s s' calls where
  helpOnly call hcall := by
    refine (h.helpOnly call hcall).imp_right fun ⟨⟨command, heq, hcommand⟩, hallowed⟩ => ?_
    exact ⟨⟨command, heq, hnamed command hcommand⟩, hallowed⟩
  state := h.state

/-- The first words that a command with the name `help` can be dispatched by. -/
def HelpWords (items : List Name) : Prop :=
  ∀ c, items.head? = some c → c = ascii "format" ∨ c = ascii "json" ∨ c = ascii "help"

theorem head?_controlItems (command : Name) :
    (controlItems command).head? = (wordSplit (toLowerAscii command)).head? := by
  rw [wordSplit_toLowerAscii]
  unfold controlItems
  cases wordSplit command with
  | nil => rfl
  | cons first rest =>
      cases rest with
      | nil => rfl
      | cons second more =>
          dsimp only
          split <;> rfl

/-- What is executed for the name `help` starts with one of the words that were
looked at. -/
theorem helpWords_remainder {command : Name} {more : List Name}
    (hwords : wordSplit (toLowerAscii command) =
      ascii "format" :: ascii "json" :: ascii "help" :: more) :
    HelpWords (controlItems (splitRemainderAfterWords command 2)) := by
  intro c hc
  have hfirst : ∀ word ∈ [ascii "format", ascii "json", ascii "help"], ∀ c ∈ word,
      isBlankByte c = false := by
    have hall : ([ascii "format", ascii "json", ascii "help"].all fun word =>
        word.all fun c => !isBlankByte c) = true := by decide
    simpa only [List.all_eq_true, Bool.not_eq_true'] using hall
  obtain ⟨skipped, hskipped, hremainder⟩ :=
    wordSplit_remainder hfirst hwords (show 2 < 3 by decide)
  rw [splitRemainderAfterWords, remainderFrom_toLowerAscii] at hremainder
  rw [head?_controlItems, splitRemainderAfterWords, hremainder] at hc
  have hcases : skipped = 0 ∨ skipped = 1 ∨ skipped = 2 := by omega
  rcases hcases with rfl | rfl | rfl
  · exact .inl (Option.some.inj hc).symm
  · exact .inr (.inl (Option.some.inj hc).symm)
  · exact .inr (.inr (Option.some.inj hc).symm)

theorem runBuiltin_harmless {s s' : ControlState} {items : List Name}
    {calls : List ControlCall} (response : Name) (hitems : HelpWords items)
    (hbefore : server.Harmless named s s' calls) :
    server.Harmless named s (runBuiltin server.env s' items calls response).state
      (runBuiltin server.env s' items calls response).calls := by
  unfold runBuiltin
  cases items with
  | nil => exact hbefore
  | cons c rest =>
      dsimp only
      rcases hitems c rfl with rfl | rfl | rfl
      · exact hbefore
      · exact hbefore
      · exact hbefore.trans ⟨fun call hcall => .inl (List.mem_singleton.mp hcall), rfl⟩

theorem controlInternal_harmless (s : ControlState) {command : Name}
    (hitems : HelpWords (controlItems command)) (hnamed : named command) :
    server.Harmless named s
      (controlInternal server.env server.extension server.policy s command).state
      (controlInternal server.env server.extension server.policy s command).calls := by
  unfold controlInternal
  dsimp only
  split
  next => exact .refl s
  next =>
    split
    next => exact runBuiltin_harmless _ hitems (.refl s)
    next extension hextension =>
      split
      next hallowed =>
        have hcalled : server.Harmless named s (extension command s).2
            [.extension command] := by
          refine ⟨fun call hcall => .inr ⟨⟨command, ?_, hnamed⟩, hallowed⟩, ?_⟩
          · exact List.mem_singleton.mp hcall
          · rw [List.foldl_cons, List.foldl_nil, afterCall, hextension]
        split
        next => exact hcalled
        next => exact runBuiltin_harmless _ hitems hcalled
      next => exact runBuiltin_harmless _ hitems (.refl s)

theorem words_of_isHelp {command : Name} (hhelp : isHelp command = true) :
    (∃ rest, wordSplit (toLowerAscii command) = ascii "help" :: rest) ∨
      ∃ more, wordSplit (toLowerAscii command) =
        ascii "format" :: ascii "json" :: ascii "help" :: more := by
  have hname := of_decide_eq_true hhelp
  unfold getCommandName at hname
  cases hwords : wordSplit (toLowerAscii command) with
  | nil =>
      rw [hwords] at hname
      exact absurd hname (by decide)
  | cons first rest =>
      rw [hwords] at hname
      rcases rest with _ | ⟨second, _ | ⟨third, more⟩⟩
      · exact .inl ⟨_, by rw [← hname]⟩
      · exact .inl ⟨_, by rw [← hname]⟩
      · dsimp only at hname
        by_cases hjson : first = ascii "format" ∧ second = ascii "json"
        · rw [if_pos hjson] at hname
          exact .inr ⟨more, by rw [← hname, hjson.1, hjson.2]⟩
        · rw [if_neg hjson] at hname
          exact .inl ⟨_, by rw [← hname]⟩

/-- The commands that a chunk may hand to the extension. -/
def Passes (chunk command : Name) : Prop :=
  isHelp chunk = true ∧ (command = chunk ∨ command = splitRemainderAfterWords chunk 2)

theorem control_harmless (s : ControlState) {chunk : Name} (hhelp : isHelp chunk = true) :
    server.Harmless (Passes chunk) s
      (control server.env server.extension server.policy s chunk).state
      (control server.env server.extension server.policy s chunk).calls := by
  rcases words_of_isHelp hhelp with ⟨rest, hwords⟩ | ⟨more, hwords⟩
  · have hitems : HelpWords (controlItems chunk) := by
      intro c hc
      rw [head?_controlItems, hwords] at hc
      exact .inr (.inr (Option.some.inj hc).symm)
    have hplain : control server.env server.extension server.policy s chunk =
        controlInternal server.env server.extension server.policy s chunk := by
      rw [control, hwords]
      cases rest with
      | nil => rfl
      | cons second more => rfl
    rw [hplain]
    exact controlInternal_harmless s hitems ⟨hhelp, .inl rfl⟩
  · have hinternal : server.Harmless (Passes chunk) s _ _ := controlInternal_harmless s
      (helpWords_remainder hwords) ⟨hhelp, .inr rfl⟩
    rw [control, hwords]
    dsimp only
    rw [if_pos rfl, if_pos rfl]
    split
    next => exact .refl s
    next => exact hinternal

theorem handle_harmless {session : ControlSession} {chunk : Name}
    (hpassword : server.password ≠ []) (hauthorized : session.authorized = false)
    (hchunk : ¬ server.Authenticates chunk) :
    (server.handle session chunk).session.authorized = false ∧
      server.Harmless (Passes chunk) session.state (server.handle session chunk).session.state
        (server.handle session chunk).calls := by
  cases hauth : isAuth chunk with
  | true =>
      rw [handle, if_pos hauth, if_neg hpassword, if_neg fun hpass => hchunk ⟨hauth, hpass.2⟩]
      exact ⟨hauthorized, .refl _⟩
  | false =>
      cases hhelp : isHelp chunk with
      | true =>
          rw [handle, if_neg (by simp [hauth]), if_pos hhelp]
          exact ⟨hauthorized, control_harmless session.state hhelp⟩
      | false =>
          rw [handle, if_neg (by simp [hauth]), if_neg (by simp [hhelp]),
            if_pos ⟨hpassword, hauthorized⟩]
          exact ⟨hauthorized, .refl _⟩

/-- Before a chunk authenticates with the password, no built-in handler but that
of `help` runs, the extension is called only for chunks with that name and if the
policy allows it, and the state changes only by its calls. -/
theorem unauthenticated_harmless (server : ControlServer) (s : ControlState)
    (chunks : List Name) (hpassword : server.password ≠ [])
    (hchunks : ∀ chunk ∈ chunks, ¬ server.Authenticates chunk) :
    server.Harmless (fun command => ∃ chunk ∈ chunks, Passes chunk command) s
      (server.serve ⟨false, s⟩ chunks).session.state
      (server.serve ⟨false, s⟩ chunks).calls := by
  have hserve : ∀ (chunks : List Name) (session : ControlSession),
      session.authorized = false → (∀ chunk ∈ chunks, ¬ server.Authenticates chunk) →
        server.Harmless (fun command => ∃ chunk ∈ chunks, Passes chunk command) session.state
          (server.serve session chunks).session.state (server.serve session chunks).calls := by
    intro chunks
    induction chunks with
    | nil => exact fun session _ _ => .refl session.state
    | cons chunk rest ih =>
        intro session hauthorized hchunks
        obtain ⟨hstill, hfirst⟩ := handle_harmless hpassword hauthorized
          (hchunks chunk List.mem_cons_self)
        have hrest := ih (server.handle session chunk).session hstill
          fun c hc => hchunks c (List.mem_cons_of_mem _ hc)
        refine Harmless.trans (hfirst.mono ?_) (hrest.mono ?_)
        · exact fun command hpasses => ⟨chunk, List.mem_cons_self, hpasses⟩
        · exact fun command ⟨c, hc, hpasses⟩ => ⟨c, List.mem_cons_of_mem _ hc, hpasses⟩
  exact hserve chunks ⟨false, s⟩ rfl hchunks

/-- A server with a password and an extension that handles nothing. -/
def extendedServer : ControlServer where
  env := { plainEnvironment with
    help := fun response => response ++ ascii "help"
    shows := fun _ _ => ascii "none" }
  extension := some fun _ s => ((false, []), s)
  policy := .full
  password := ascii "secret"

theorem unauthenticated_harmless_help :
    extendedServer.Harmless
      (fun command => ∃ chunk ∈ [ascii "list", ascii "auth guess", ascii "format json help"],
        Passes chunk command) consoleState
      (extendedServer.serve ⟨false, consoleState⟩
        [ascii "list", ascii "auth guess", ascii "format json help"]).session.state
      (extendedServer.serve ⟨false, consoleState⟩
        [ascii "list", ascii "auth guess", ascii "format json help"]).calls := by
  refine extendedServer.unauthenticated_harmless consoleState _ (by decide) ?_
  show ∀ chunk ∈ _, ¬ (isAuth chunk = true ∧ authPass chunk = ascii "secret")
  decide

/-- The extension is called for `help` although nothing has authenticated. -/
theorem extension_before_authentication :
    ¬ extendedServer.Authenticates (ascii "help") ∧
      ControlCall.extension (ascii "help") ∈
        (extendedServer.serve ⟨false, consoleState⟩ [ascii "help"]).calls := by
  refine ⟨?_, List.mem_of_getElem? (i := 0) rfl⟩
  show ¬ (isAuth (ascii "help") = true ∧ authPass (ascii "help") = ascii "secret")
  decide

/-! ## Requests and chunks -/

/-- The chunks in which the bytes of a request can arrive. -/
structure Transported (request : Name) (chunks : List Name) : Prop where
  whole : chunks.flatten = request
  nonempty : ∀ chunk ∈ chunks, chunk ≠ []
  buffer : ∀ chunk ∈ chunks, chunk.length ≤ 4096

/-- The request is handled as one command, and one reply is sent. -/
def OneCommand (server : ControlServer) (session : ControlSession) (request : Name)
    (chunks : List Name) : Prop :=
  ∃ text, server.serve session chunks =
    ⟨(server.handle session request).session, [request],
      (server.handle session request).calls, [text]⟩

theorem serve_commands (server : ControlServer) (session : ControlSession)
    (chunks : List Name) : (server.serve session chunks).commands = chunks := by
  induction chunks generalizing session with
  | nil => rfl
  | cons chunk rest ih => rw [serve, ih]

theorem reply_toList_iff (response : Name) :
    (∃ text, (reply response).toList = [text]) ↔ response ≠ [] := by
  unfold reply
  split
  next h => simp [h]
  next h => split <;> simp [h]

/-- Nothing is sent for the request: it is executed, for its plain text, and
nothing answers it. -/
structure Silent (server : ControlServer) (session : ControlSession) (request : Name) :
    Prop where
  notAuth : isAuth request = false
  admitted : isHelp request = true ∨ server.password = [] ∨ session.authorized = true
  unanswered : ∃ plain, plainCommand server.policy request = some plain ∧
    Unanswered server.env server.extension server.policy session.state plain

theorem handle_eq_nil_iff {server : ControlServer} (hreports : server.env.Reports)
    (session : ControlSession) (request : Name) :
    (server.handle session request).response = [] ↔ server.Silent session request := by
  have hexecute : (isHelp request = true ∨ server.password = [] ∨ session.authorized = true) →
      isAuth request = false →
      ((server.execute session request).response = [] ↔ server.Silent session request) := by
    intro hadmitted hauth
    rw [execute, control_eq_nil_iff hreports]
    exact ⟨fun h => ⟨hauth, hadmitted, h⟩, fun h => h.unanswered⟩
  unfold handle
  cases hauth : isAuth request with
  | true =>
      refine iff_of_false ?_ fun h => absurd (hauth.symm.trans h.notAuth) nofun
      rw [if_pos rfl]
      split
      next => simp
      next => split <;> simp
  | false =>
      rw [if_neg nofun]
      cases hhelp : isHelp request with
      | true => exact hexecute (.inl hhelp) hauth
      | false =>
          rw [if_neg nofun]
          split
          next hclosed =>
            refine iff_of_false (by simp) fun h => ?_
            rcases h.admitted with hadmitted | hpassword | hauthorized
            · exact absurd (hhelp.symm.trans hadmitted) nofun
            · exact hclosed.1 hpassword
            · exact absurd (hclosed.2.symm.trans hauthorized) nofun
          next hopen =>
            refine hexecute (.inr ?_) hauth
            by_cases hpassword : server.password = []
            · exact .inl hpassword
            · exact .inr (by simpa [hpassword] using hopen)

/-- A request is one command exactly if it arrives in one chunk and something
answers it. -/
theorem oneCommand_iff (server : ControlServer) (session : ControlSession)
    (request : Name) (chunks : List Name) (hreports : server.env.Reports)
    (htransported : Transported request chunks) :
    server.OneCommand session request chunks ↔
      chunks.length = 1 ∧ ¬ server.Silent session request := by
  have hserve : server.serve session [request] =
      ⟨(server.handle session request).session, [request],
        (server.handle session request).calls,
        (reply (server.handle session request).response).toList⟩ := by
    rw [serve, serve, List.append_nil, List.append_nil]
  rw [← handle_eq_nil_iff hreports]
  constructor
  · rintro ⟨text, hone⟩
    have hchunks := server.serve_commands session chunks
    rw [hone] at hchunks
    dsimp only at hchunks
    subst hchunks
    rw [hserve, Served.mk.injEq] at hone
    exact ⟨rfl, (reply_toList_iff _).mp ⟨text, hone.2.2.2⟩⟩
  · rintro ⟨hlength, hresponse⟩
    obtain ⟨chunk, rfl⟩ := List.length_eq_one_iff.mp hlength
    have hwhole := htransported.whole
    rw [List.flatten_singleton] at hwhole
    subst hwhole
    obtain ⟨text, htext⟩ := (reply_toList_iff _).mpr hresponse
    exact ⟨text, by rw [hserve, htext]⟩

theorem extendedServer_reports : extendedServer.env.Reports where
  help response := List.append_ne_nil_of_right_ne_nil response (by decide)
  shows _ _ := by
    show ascii "none" ≠ []
    decide

theorem oneCommand_version :
    extendedServer.OneCommand ⟨true, consoleState⟩ (ascii "version") [ascii "version"] := by
  refine (oneCommand_iff _ _ _ _ extendedServer_reports ⟨rfl, by decide, by decide⟩).mpr ?_
  exact ⟨rfl, (handle_eq_nil_iff extendedServer_reports _ _).not.mp (by decide)⟩

/-- Two chunks of a request are two commands. -/
theorem split_request :
    Transported (ascii "version") [ascii "ver", ascii "sion"] ∧
      ¬ extendedServer.OneCommand ⟨true, consoleState⟩ (ascii "version")
        [ascii "ver", ascii "sion"] := by
  refine ⟨⟨rfl, by decide, by decide⟩, ?_⟩
  rintro ⟨text, hone⟩
  have hcommands : [ascii "ver", ascii "sion"] = [ascii "version"] := by
    have hserved := congrArg Served.commands hone
    rwa [serve_commands] at hserved
  exact absurd hcommands (by decide)

end ControlServer
end Logme
