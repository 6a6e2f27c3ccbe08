import Logme.ControlJson
import Logme.ControlSession

/-!
# Sessions in JSON

The command-line client `logmectl` asks for JSON with the words `format json` and
looks for the member `ok` in what it receives.  The server answers some of such
requests without its dispatcher, and then not in JSON.
-/

namespace Logme

/-! ## The client -/

/-- `s.find(text)`: what begins at the first occurrence. -/
def findText (text : Name) : Name → Option Name
  | [] => if text = [] then some [] else none
  | c :: rest => if startsWith text (c :: rest) then some (c :: rest) else findText text rest

/-- `ExtractJsonOk`. -/
def extractJsonOk (s : Name) : Option Bool :=
  match findText (ascii "\"ok\"") s with
  | none => none
  | some found =>
      match findText (ascii ":") found with
      | none => none
      | some colon =>
          let value := colon.tail.dropWhile isBlankByte
          if startsWith (ascii "true") value then some true
          else if startsWith (ascii "false") value then some false
          else none

/-- `IsOkTextResponse`. -/
def isOkTextResponse (s : Name) : Bool := startsWith (ascii "ok") (trimBlanks s)

/-- What a run of `logmectl` has sent, the response to its command, and whether
it has succeeded. -/
structure ClientRun where
  sent : List Name
  response : Option Name
  succeeded : Bool

namespace ControlServer

/-- `DoRequest`, for a request that arrives as one chunk and a whole reply. -/
def doRequest (server : ControlServer) (session : ControlSession) (request : Name) :
    ControlSession × Name :=
  let handled := server.handle session request
  (handled.session, (reply handled.response).getD [])

def authCommand (json : Bool) (pass : Name) : Name :=
  (if json then ascii "format json auth " else ascii "auth ") ++ pass

def clientCommand (json : Bool) (command : Name) : Name :=
  if json then ascii "format json " ++ command else command

/-- The last request of a run; an empty one is not sent. -/
def requestCommand (server : ControlServer) (session : ControlSession) (json : Bool)
    (sent : List Name) (command : Name) : ClientRun :=
  if command = [] then ⟨sent, none, false⟩
  else
    let response := (server.doRequest session command).2
    ⟨sent ++ [command], some response,
      if json then extractJsonOk response = some true else true⟩

/-- A run of `logmectl` on a connection of its own. -/
def logmectl (server : ControlServer) (s : ControlState) (json : Bool)
    (pass command : Name) : ClientRun :=
  let session : ControlSession := ⟨false, s⟩
  if pass = [] then
    server.requestCommand session json [] (clientCommand json command)
  else
    let auth := server.doRequest session (authCommand json pass)
    let accepted : Bool :=
      if json then extractJsonOk auth.2 = some true else isOkTextResponse auth.2
    if accepted then
      server.requestCommand auth.1 json [authCommand json pass] (clientCommand json command)
    else ⟨[authCommand json pass], none, false⟩

/-! ## The answers -/

/-- The first words of the chunk are `format json`. -/
def AsksJson (chunk : Name) : Prop :=
  ∃ more, wordSplit (toLowerAscii chunk) = ascii "format" :: ascii "json" :: more

/-- The chunk is no `auth`, the session admits it, and the policy has formats. -/
def dispatchesJson (server : ControlServer) (session : ControlSession) (chunk : Name) :
    Bool :=
  !isAuth chunk &&
    (isHelp chunk || server.password = [] || session.authorized) &&
      server.policy.allowFormatCommand

/-- The text of what was asked for; without the dispatcher, the server's own. -/
def plainText (server : ControlServer) (session : ControlSession) (chunk : Name) : Name :=
  if server.dispatchesJson session chunk then
    (controlInternal server.env server.extension server.policy session.state
      (splitRemainderAfterWords chunk 2)).response
  else (server.handle session chunk).response

/-- The reply is one JSON object with the three members, in which the client
finds whether the command has succeeded. -/
structure SpeaksJson (server : ControlServer) (session : ControlSession) (chunk : Name) :
    Prop where
  object : ∃ members, Json.IsObject (server.doRequest session chunk).2 members ∧
    members.map Prod.fst = [ascii "ok", ascii "error", ascii "data"]
  success : extractJsonOk (server.doRequest session chunk).2 =
    some (isOk (server.plainText session chunk))

theorem extractJsonOk_jsonReply (remainder text rest : Name) :
    extractJsonOk (jsonReply remainder text ++ rest) = some (isOk text) := by
  unfold jsonReply
  dsimp only
  cases isOk text <;> rfl

variable {server : ControlServer} {session : ControlSession} {chunk : Name}

theorem control_json (hjson : AsksJson chunk)
    (hallowed : server.policy.allowFormatCommand = true) :
    (control server.env server.extension server.policy session.state chunk).response =
      jsonReply (splitRemainderAfterWords chunk 2)
        (controlInternal server.env server.extension server.policy session.state
          (splitRemainderAfterWords chunk 2)).response := by
  obtain ⟨more, hwords⟩ := hjson
  rw [control, hwords]
  dsimp only
  rw [if_pos rfl, if_neg (by simp [hallowed]), if_pos rfl]

theorem speaksJson_of_dispatches (hjson : AsksJson chunk)
    (hdispatch : server.dispatchesJson session chunk = true) :
    server.SpeaksJson session chunk := by
  have hparts := hdispatch
  simp only [dispatchesJson, Bool.and_eq_true, Bool.not_eq_true', Bool.or_eq_true,
    decide_eq_true_eq] at hparts
  obtain ⟨⟨hauth, hadmitted⟩, hallowed⟩ := hparts
  have hhandle : server.handle session chunk = server.execute session chunk := by
    unfold handle
    rw [if_neg (by simp [hauth])]
    by_cases hhelp : isHelp chunk = true
    · rw [if_pos hhelp]
    · rw [if_neg hhelp, if_neg]
      rintro ⟨hpassword, hauthorized⟩
      simp [hhelp, hpassword, hauthorized] at hadmitted
  have hplain : server.plainText session chunk =
      (controlInternal server.env server.extension server.policy session.state
        (splitRemainderAfterWords chunk 2)).response := if_pos hdispatch
  have hresponse : (server.handle session chunk).response =
      jsonReply (splitRemainderAfterWords chunk 2) (server.plainText session chunk) := by
    rw [hhandle, hplain]
    exact control_json hjson hallowed
  have hlast : (jsonReply (splitRemainderAfterWords chunk 2)
      (server.plainText session chunk)).getLast? ≠ some 0x0A := by
    unfold jsonReply
    dsimp only
    rw [List.getLast?_append_of_ne_nil _ (by decide)]
    decide
  have hreply : (server.doRequest session chunk).2 =
      jsonReply (splitRemainderAfterWords chunk 2) (server.plainText session chunk) ++
        [0x0A] := by
    unfold doRequest reply
    dsimp only
    rw [hresponse, if_neg (jsonReply_ne_nil _ _), if_neg hlast]
    rfl
  constructor
  · rw [hreply]
    exact ⟨_, isObject_jsonReply _ _ (List.forall_mem_singleton.mpr rfl), rfl⟩
  · rw [hreply]
    exact extractJsonOk_jsonReply _ _ _

/-- What the server says without its dispatcher. -/
inductive OwnText : Name → Prop
  | ok : OwnText (ascii "ok")
  | error (error : Name) : OwnText (ascii "error: " ++ error)

theorem ownText_of_not_dispatches (hjson : AsksJson chunk)
    (hdispatch : server.dispatchesJson session chunk = false) :
    OwnText (server.handle session chunk).response := by
  unfold handle
  cases hauth : isAuth chunk with
  | true =>
      rw [if_pos rfl]
      split
      next => exact .ok
      next =>
        split
        next => exact .ok
        next => exact .error (ascii "invalid password")
  | false =>
      rw [if_neg nofun]
      have hrejected : (isHelp chunk = true ∨ server.password = [] ∨
          session.authorized = true) → OwnText (server.execute session chunk).response := by
        intro hadmitted
        have hforbidden : server.policy.allowFormatCommand = false := by
          simpa [dispatchesJson, hauth, or_assoc, hadmitted] using hdispatch
        obtain ⟨more, hwords⟩ := hjson
        unfold execute
        rw [control, hwords]
        dsimp only
        rw [if_pos rfl, if_pos hforbidden]
        exact .error (ascii "command rejected by control policy: format command is disabled")
      cases hhelp : isHelp chunk with
      | true => exact hrejected (.inl hhelp)
      | false =>
          rw [if_neg nofun]
          split
          next => exact .error (ascii "unauthorized")
          next hopen =>
            refine hrejected (.inr ?_)
            by_cases hpassword : server.password = []
            · exact .inl hpassword
            · exact .inr (by simpa [hpassword] using hopen)

theorem reply_cons (b : UInt8) (text : Name) :
    ∃ rest, (reply (b :: text)).getD [] = b :: rest := by
  unfold reply
  rw [if_neg (List.cons_ne_nil _ _)]
  split
  next => exact ⟨text, rfl⟩
  next => exact ⟨text ++ [0x0A], rfl⟩

/-- The server's own texts are no objects. -/
theorem not_isObject_of_ownText {response : Name} (h : OwnText response)
    (members : List (Name × Json.Tree)) :
    ¬ Json.IsObject ((reply response).getD []) members := by
  intro hobject
  cases h with
  | ok =>
      obtain ⟨rest, hrest⟩ := reply_cons 0x6F [0x6B]
      rw [show ascii "ok" = [0x6F, 0x6B] from rfl, hrest] at hobject
      exact absurd (hobject.head (by decide)) (by decide)
  | error error =>
      obtain ⟨rest, hrest⟩ := reply_cons 0x65 (ascii "rror: " ++ error)
      rw [show ascii "error: " ++ error = 0x65 :: (ascii "rror: " ++ error) from rfl,
        hrest] at hobject
      exact absurd (hobject.head (by decide)) (by decide)

/-! ## Authentication by the client -/

theorem isAuth_authCommand (pass : Name) : isAuth (authCommand true pass) = true := by
  have hsplit : wordSplit (toLowerAscii (authCommand true pass)) =
      ascii "format" :: ascii "json" :: ascii "auth" :: wordSplit (toLowerAscii pass) := rfl
  rw [isAuth, getCommandName, hsplit]
  rfl

/-- The client does not understand the answer of a server with a password. -/
theorem extractJsonOk_auth (hpassword : server.password ≠ []) (pass : Name) :
    extractJsonOk (server.doRequest session (authCommand true pass)).2 = none := by
  unfold doRequest handle
  rw [if_pos (isAuth_authCommand pass), if_neg hpassword]
  split <;> rfl

theorem reaches_command_iff (s : ControlState) (command : Name) :
    ((server.logmectl s true server.password command).response).isSome = true ↔
      server.password = [] := by
  have hcommand : clientCommand true command ≠ [] := by simp [clientCommand]
  unfold logmectl
  dsimp only
  by_cases hpassword : server.password = []
  · rw [if_pos hpassword, requestCommand, if_neg hcommand]
    exact iff_of_true rfl hpassword
  · rw [if_neg hpassword, if_neg]
    · exact iff_of_false nofun hpassword
    · rw [if_pos rfl, extractJsonOk_auth hpassword]
      decide

end ControlServer
end Logme
