import NemSigner.Session.Exchange

/-!
# Histories of a session

A session starts idle and is changed by events and by decisions of the user. Looking at the fields
of a transaction changes nothing, so a history holds no looks.

## Main definitions

- `Operation` — what changes a session
- `Session.perform` — one operation, with what the key store was asked to sign
- `Session.after` — the session after a history
- `Session.signedIn` — what was signed in the course of a history
-/

namespace NemSigner

/-- What changes a session. -/
inductive Operation
  | update (event : Event)
  | approve
  | reject
  | reset
  deriving DecidableEq, Repr

namespace Session

/-- The session after an operation, and what the key store was asked to sign in it. -/
def perform (signer : Signer) (session : Session) : Operation → Session × Option SigningJob
  | .update event => ((session.update event).2, none)
  | .approve =>
    let approval := session.approve signer
    (approval.session, approval.signed)
  | .reject => (session.reject.2, none)
  | .reset => (session.reset, none)

/-- The session after a history. -/
def after (signer : Signer) (history : List Operation) : Session :=
  history.foldl (fun session operation => (session.perform signer operation).1) idle

/-- What was signed in the course of a history that starts from a session, in order. -/
def signedIn (signer : Signer) (session : Session) : List Operation → List SigningJob
  | [] => []
  | operation :: rest =>
    let (next, signed) := session.perform signer operation
    signed.toList ++ signedIn signer next rest

end Session

end NemSigner
