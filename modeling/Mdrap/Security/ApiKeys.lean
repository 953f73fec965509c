import Mdrap.Engine.Types
import Mdrap.Lib.Dict
import Mdrap.Lib.Machine
import Mdrap.Lib.Runs

/-!
# Keys of clients

`SecurityManager` keeps what a client is entitled to under a hash of the client's token, in memory and in a table of the `Store`. The
hash is HMAC-SHA256 with a salt; a table from before that holds plain SHA-256, and a lookup by the token moves such a key, in memory,
to the salted hash. A key is revoked, rotated and cleaned up in both places, and a manager that starts reads the table again.

The two hashes, `upper`, `strip` and the clock's numbers are left open; the salt does not change. The lists in a row are kept as
lists, not as their JSON texts. Writes to the table succeed, and the audit entries of a rotation are not modelled.
-/

namespace Mdrap

namespace Security

open Lib

/-! ## Entitlements -/

/-- `Role`. -/
inductive Role where
  | viewer
  | operator
  | admin
  deriving DecidableEq

def Role.value : Role → String
  | .viewer => "VIEWER"
  | .operator => "OPERATOR"
  | .admin => "ADMIN"

/-- The role of this name, or the least one. -/
def Role.named (name : String) : Role :=
  if name = "OPERATOR" then .operator else if name = "ADMIN" then .admin else .viewer

/-- `ClientEntitlement`. -/
structure ClientEntitlement (V : Type) where
  token : String
  clientId : String
  tokenHash : String
  keyPrefix : String
  keyId : String
  role : Role
  createdAt : V
  expiresAt : Option V
  isActive : Bool
  allowedCidrs : List String
  allowedSources : List String
  allowedSymbols : List String
  isRotating : Bool
  deriving DecidableEq

/-- A row of `api_keys`. -/
structure KeyRow (V : Type) where
  tokenHash : String
  keyPrefix : String
  keyId : String
  clientId : String
  role : String
  isActive : Bool
  createdAt : V
  expiresAt : Option V
  allowedCidrs : List String
  allowedSources : List String
  allowedSymbols : List String
  deriving DecidableEq

/-- What is left open: `hash_api_key`; the hexadecimal SHA-256 of a text; the salted hash that the store takes, which is no text where
the salt is that of the demo; `upper`; a text that `strip` leaves nothing of; and the clock's numbers. -/
structure KeyEnv (V : Type) where
  hashApiKey : String → String
  sha256 : String → String
  storeHash : String → String
  upper : String → String
  blank : String → Bool
  clock : Floats V

/-- The first characters of a text. -/
def firstChars (n : Nat) (s : String) : String := String.ofList (s.toList.take n)

/-- The start of a token, which names its key. -/
def tokenPrefix (token : String) : String := if 12 < token.length then firstChars 12 token ++ "..." else token

/-! ## The table -/

/-- The rows, by their order of entry. -/
abbrev KeyTable (V : Type) := List (KeyRow V)

namespace KeyTable

variable {V : Type} (env : KeyEnv V)

/-- The row of an entitlement with this hash. -/
def rowOf (tokenHash : String) (e : ClientEntitlement V) : KeyRow V where
  tokenHash := tokenHash
  keyPrefix :=
    if e.keyPrefix ≠ "" then e.keyPrefix else if e.token ≠ "" then tokenPrefix e.token else firstChars 12 tokenHash ++ "..."
  keyId := if e.keyId ≠ "" then e.keyId else firstChars 16 tokenHash
  clientId := e.clientId
  role := e.role.value
  isActive := e.isActive
  createdAt := e.createdAt
  expiresAt := e.expiresAt
  allowedCidrs := e.allowedCidrs
  allowedSources := e.allowedSources
  allowedSymbols := e.allowedSymbols

/-- `save_api_key`. The hash and the prefix that it fills in are those of an entitlement that has neither, which no caller here
gives it. -/
def saveApiKey (rows : KeyTable V) (e : ClientEntitlement V) : Except PyError (KeyTable V) :=
  let tokenHash := if e.tokenHash = "" ∧ e.token ≠ "" then env.hashApiKey e.token else e.tokenHash
  if tokenHash = "" then .error ⟨"ValueError", "Cannot persist API key without token or token_hash"⟩
  else .ok (rows.filter (fun r => r.tokenHash ≠ tokenHash) ++ [rowOf tokenHash e])

/-- An entitlement of `load_api_keys`; the token, which is the hash, is dropped once `__post_init__` has used it. -/
def loadRow (r : KeyRow V) : ClientEntitlement V where
  token := ""
  clientId := r.clientId
  tokenHash := r.tokenHash
  keyPrefix := if r.tokenHash ≠ "" ∧ r.keyPrefix = "" then tokenPrefix r.tokenHash else r.keyPrefix
  keyId := if r.keyId ≠ "" then r.keyId else firstChars 16 r.tokenHash
  role := .named r.role
  createdAt := r.createdAt
  expiresAt := r.expiresAt
  isActive := r.isActive
  allowedCidrs := r.allowedCidrs
  allowedSources := r.allowedSources
  allowedSymbols := r.allowedSymbols
  isRotating := false

/-- The rows under one of three hashes become inactive. -/
def deactivate (hashes : List String) (rows : KeyTable V) : KeyTable V :=
  rows.map (fun r => if r.tokenHash ∈ hashes then { r with isActive := false } else r)

/-- `Store.revoke_api_key`. -/
def revokeApiKey (rows : KeyTable V) (tokenOrHash : String) : Except PyError (Bool × KeyTable V) :=
  let prefixRows := rows.filter (fun r => r.keyPrefix = tokenOrHash && r.isActive)
  if 1 < prefixRows.length then .error ⟨"ValueError", "API key prefix is ambiguous; use a token or token hash"⟩
  else
    let exactHash := (prefixRows.head?.map (·.tokenHash)).getD tokenOrHash
    let hashes := [env.storeHash tokenOrHash, env.sha256 tokenOrHash, exactHash]
    .ok (rows.any (fun r => decide (r.tokenHash ∈ hashes)), deactivate hashes rows)

end KeyTable

/-! ## The keys in memory -/

/-- `HashedKeyStore`. -/
abbrev KeyStore (V : Type) := Dict String (ClientEntitlement V)

/-- A key with the hash that it is kept under. -/
abbrev KeptKey (V : Type) := String × ClientEntitlement V

namespace KeyStore

variable {V : Type} (env : KeyEnv V)

/-- The entitlement under the salted hash of its token. -/
def salted (key : String) (e : ClientEntitlement V) : ClientEntitlement V :=
  { e with tokenHash := env.hashApiKey key, keyId := firstChars 16 (env.hashApiKey key) }

/-- A key under the unsalted hash of this token moves to the salted one. -/
def migrate (keys : KeyStore V) (key : String) (e : ClientEntitlement V) : KeyStore V :=
  (keys.set (env.hashApiKey key) (salted env key e)).erase (env.sha256 key)

/-- `get_by_token`. -/
def getByToken (keys : KeyStore V) (key : String) : Option (ClientEntitlement V) × KeyStore V :=
  if key = "" then (none, keys)
  else
    match (keys.get? (env.hashApiKey key)).filter (fun e => e.tokenHash = env.hashApiKey key) with
    | some e => (some e, keys)
    | none =>
      match keys.get? (env.sha256 key) with
      | some e => (some (salted env key e), migrate env keys key e)
      | none => (none, keys)

/-- The key of a token, or the one under this hash. -/
def getByTokenOrHash (keys : KeyStore V) (key : String) : Option (KeptKey V) × KeyStore V :=
  match getByToken env keys key with
  | (some e, keys) => (some (env.hashApiKey key, e), keys)
  | (none, keys) => ((keys.get? key).map (fun e => (key, e)), keys)

/-- The key that `revoke_api_key` means where a text is neither a token nor a hash: by the id of an active key, by the prefix of the
only active key that has it, or by the prefix of any key. -/
def findIdentified (keys : KeyStore V) (token : String) : Except PyError (Option (KeptKey V)) :=
  match keys.items.find? (fun kv => kv.2.keyId = token && kv.2.isActive) with
  | some kv => .ok (some kv)
  | none =>
    match keys.items.filter (fun kv => kv.2.keyPrefix = token && kv.2.isActive) with
    | _ :: _ :: _ => .error ⟨"ValueError", "API key prefix is ambiguous; use key_id or token hash"⟩
    | [kv] => .ok (some kv)
    | [] => .ok (keys.items.find? (fun kv => kv.2.keyPrefix = token))

end KeyStore

/-! ## The manager -/

/-- The keys of a manager, and the table of its store. -/
structure KeyState (V : Type) where
  keys : KeyStore V
  rows : KeyTable V

/-- What `register_api_key` is given; the draws are those of a token that the caller leaves out. -/
structure RegisterCall (V : Type) where
  clientId : String
  role : String
  token : Option String
  expiresAt : Option V
  allowedCidrs : List String
  allowedSources : List String
  allowedSymbols : List String
  draws : Nat → String
  now : V

/-- What `rotate_api_key` is given. -/
structure RotateCall (V : Type) where
  tokenOrClientId : String
  newToken : Option String
  gracePeriod : V
  draws : Nat → String
  now : V

namespace KeyState

variable {V : Type} (env : KeyEnv V)

/-- The first of fifty drawn tokens whose prefix no key has, or the last. -/
def drawToken (keys : KeyStore V) (draws : Nat → String) : String :=
  draws (((List.range 50).find? (fun i => tokenPrefix (draws i) ∉ keys.values.map (·.keyPrefix))).getD 49)

/-- The token that a key is registered for. -/
def tokenFor (keys : KeyStore V) (draws : Nat → String) : Option String → String
  | none => drawToken keys draws
  | some token => if token = "" then drawToken keys draws else token

/-- The entitlement of a new key. -/
def newEntitlement (c : RegisterCall V) (token : String) : ClientEntitlement V where
  token := token
  clientId := c.clientId
  tokenHash := env.hashApiKey token
  keyPrefix := tokenPrefix token
  keyId := firstChars 16 (env.hashApiKey token)
  role := .named (env.upper c.role)
  createdAt := c.now
  expiresAt := c.expiresAt
  isActive := true
  allowedCidrs := c.allowedCidrs
  allowedSources := c.allowedSources
  allowedSymbols := c.allowedSymbols
  isRotating := false

/-- `register_api_key`. -/
def registerApiKey (s : KeyState V) (c : RegisterCall V) : Except PyError (ClientEntitlement V) × KeyState V :=
  let token := tokenFor s.keys c.draws c.token
  let tokHash := env.hashApiKey token
  let ent := newEntitlement env c token
  match s.rows.saveApiKey env ent with
  | .ok rows => (.ok ent, ⟨s.keys.set tokHash ent, rows⟩)
  | .error e => (.error ⟨"RuntimeError", s!"Failed to persist API key to storage: {e.message}"⟩, { s with keys := s.keys.erase tokHash })

/-- The text that the table is asked to revoke. -/
def storedAs (e : ClientEntitlement V) (other : String) : String := if e.tokenHash = "" then other else e.tokenHash

/-- Revoke a key that was found. -/
def revokeFound (s : KeyState V) (token : String) (kv : KeptKey V) : Except PyError Bool × KeyState V :=
  match s.rows.revokeApiKey env (storedAs kv.2 token) with
  | .error e => (.error ⟨"RuntimeError", s!"Failed to persist API key revocation to storage: {e.message}"⟩, s)
  | .ok (_, rows) => (.ok true, ⟨s.keys.set kv.1 { kv.2 with isActive := false }, rows⟩)

/-- `revoke_api_key`. -/
def revokeApiKey (s : KeyState V) (token : String) : Except PyError Bool × KeyState V :=
  match s.keys.getByTokenOrHash env token with
  | (some kv, keys) => revokeFound env { s with keys := keys } token kv
  | (none, keys) =>
    match keys.findIdentified token with
    | .error e => (.error e, { s with keys := keys })
    | .ok none => (.ok false, { s with keys := keys })
    | .ok (some kv) => revokeFound env { s with keys := keys } token kv

/-- The time of an entitlement is over. -/
def expired (e : ClientEntitlement V) (now : V) : Bool := e.expiresAt.any (fun x => env.clock.lt x now)

/-- `get_entitlement`. -/
def getEntitlement (s : KeyState V) (token : String) (activeOnly : Bool) (now : V) : Option (ClientEntitlement V) × KeyState V :=
  let (found, keys) := s.keys.getByToken env token
  (found.filter (fun e => !activeOnly || (e.isActive && !expired env e now)), { s with keys := keys })

/-- `authenticate`. -/
def authenticate (s : KeyState V) (token : String) (now : V) : Bool × KeyState V :=
  let (found, s) := getEntitlement env s token true now
  (found.isSome, s)

/-- The key that `rotate_api_key` means: by a token, by a hash, or by the client of an active key. -/
def findRotated (keys : KeyStore V) (tokenOrClientId : String) : Option (KeptKey V) × KeyStore V :=
  match keys.getByTokenOrHash env tokenOrClientId with
  | (some kv, keys) => (some kv, keys)
  | (none, keys) => (keys.items.find? (fun kv => kv.2.clientId = tokenOrClientId && kv.2.isActive), keys)

/-- The new key of a rotation, with the addresses of the old one. -/
def rotateTo (s : KeyState V) (old : ClientEntitlement V) (c : RotateCall V) :
    Except PyError (ClientEntitlement V × ClientEntitlement V) × KeyState V :=
  match registerApiKey env s ⟨old.clientId, old.role.value, c.newToken, none, [], [], [], c.draws, c.now⟩ with
  | (.error e, s) => (.error e, s)
  | (.ok new, s) =>
    let new' := { new with allowedCidrs := old.allowedCidrs }
    match s.rows.saveApiKey env new' with
    | .error _ => (.error ⟨"RuntimeError", "Failed to persist new API key rotation state"⟩, s)
    | .ok rows => (.ok (new', old), ⟨s.keys.set new.tokenHash new', rows⟩)

/-- The old key of a rotation, which is good for the grace period still, and for a second at least. -/
def rotating (c : RotateCall V) (e : ClientEntitlement V) : ClientEntitlement V :=
  { e with isRotating := true, expiresAt := some (env.clock.add c.now (env.clock.max (env.clock.dec 1 0) c.gracePeriod)) }

/-- `rotate_api_key`. -/
def rotateApiKey (s : KeyState V) (c : RotateCall V) : Except PyError (ClientEntitlement V × ClientEntitlement V) × KeyState V :=
  match findRotated env s.keys c.tokenOrClientId with
  | (none, keys) =>
    (.error ⟨"KeyError", s!"No active API key found for identifier: {c.tokenOrClientId}"⟩, { s with keys := keys })
  | (some kv, keys) =>
    match s.rows.saveApiKey env (rotating env c kv.2) with
    | .error _ => (.error ⟨"RuntimeError", "Failed to persist old API key rotation state"⟩, { s with keys := keys })
    | .ok rows => rotateTo env ⟨keys.set kv.1 (rotating env c kv.2), rows⟩ (rotating env c kv.2) c

/-- The loop of `cleanup_expired_rotated_keys`. -/
def cleanupLoop (now : V) : List (KeptKey V) → Nat → KeyState V → Except PyError Nat × KeyState V
  | [], count, s => (.ok count, s)
  | kv :: rest, count, s =>
    if kv.2.isActive && expired env kv.2 now then
      match s.rows.revokeApiKey env (storedAs kv.2 kv.2.token) with
      | .error _ => (.error ⟨"RuntimeError", "Failed to persist expired API key deactivation"⟩, s)
      | .ok (_, rows) =>
        cleanupLoop now rest (count + 1) ⟨s.keys.set kv.1 { kv.2 with isActive := false, isRotating := false }, rows⟩
    else cleanupLoop now rest count s

/-- `cleanup_expired_rotated_keys`. -/
def cleanupExpiredRotatedKeys (s : KeyState V) (now : V) : Except PyError Nat × KeyState V := cleanupLoop env now s.keys.items 0 s

/-! ### Starting -/

/-- The environment of a manager that starts: the demo's keys, the names and values of `MDRAP_API_KEY_`, the first administrator's
key, and whether one is drawn. -/
structure Environ where
  demo : Bool
  apiKeys : List (String × String)
  initialAdminKey : String
  autoBootstrap : Bool
  drawnAdminKey : String

/-- The keys of the demo. -/
def demoKeys : List (String × String × Role) :=
  [("mdrap_demo_key", "Demo_Client", .admin), ("mdrap_demo_free_key", "Demo_Client", .viewer),
   ("mdrap_demo_pro_key", "Demo_Pro_Quant", .operator), ("mdrap_demo_inst_key", "Demo_Institutional_HFT", .admin)]

/-- The tokens that the environment gives, with the client and the role of each. -/
def Environ.given (environ : Environ) : List (String × String × Role) :=
  (if environ.demo then demoKeys else []) ++
    (environ.apiKeys.filter (fun kv => env.upper kv.1 ≠ "SALT" && !env.blank kv.2)).map
      (fun kv => (kv.2, "Env_Client_" ++ env.upper kv.1, .named (env.upper kv.1)))

/-- The key of a token that the environment gives. -/
def givenEntitlement (now : V) (g : String × String × Role) : ClientEntitlement V where
  token := ""
  clientId := g.2.1
  tokenHash := env.hashApiKey g.1
  keyPrefix := firstChars 12 g.1 ++ "..."
  keyId := firstChars 16 (env.hashApiKey g.1)
  role := g.2.2
  createdAt := now
  expiresAt := none
  isActive := true
  allowedCidrs := []
  allowedSources := []
  allowedSymbols := []
  isRotating := false

/-- The keys that the environment gives. -/
def givenKeys (given : List (String × String × Role)) (now : V) : KeyStore V :=
  given.foldl (fun keys g => keys.set (env.hashApiKey g.1) (givenEntitlement env now g)) .empty

/-- The keys with those of the table, which take the place of the ones the environment gives. -/
def loadKeys (keys : KeyStore V) (rows : KeyTable V) : KeyStore V :=
  (rows.filter (fun r => r.tokenHash ≠ "")).foldl (fun keys r => keys.set r.tokenHash (KeyTable.loadRow r)) keys

/-- The token of the first administrator. -/
def Environ.adminToken (environ : Environ) : Option String :=
  if environ.initialAdminKey ≠ "" then some environ.initialAdminKey
  else if environ.autoBootstrap then some environ.drawnAdminKey
  else none

/-- The first administrator's key, where there is no other. -/
def bootstrap (s : KeyState V) (environ : Environ) (now : V) : KeyState V :=
  if !environ.demo && s.keys.items.isEmpty then
    match environ.adminToken with
    | some token => (registerApiKey env s ⟨"Initial_Administrator", "ADMIN", some token, none, [], [], [], fun _ => token, now⟩).2
    | none => s
  else s

/-- The tokens that a manager which starts in this environment may have keys for. -/
def Environ.tokens (environ : Environ) : List String := (environ.given env).map (·.1) ++ environ.adminToken.toList

/-- A manager that starts on a table. -/
def start (rows : KeyTable V) (environ : Environ) (now : V) : KeyState V :=
  bootstrap env ⟨loadKeys (givenKeys env (environ.given env) now) rows, rows⟩ environ now

end KeyState

/-! ## Runs -/

/-- What is done with the keys. -/
inductive KeyOp (V : Type) where
  | register (c : RegisterCall V)
  | getEntitlement (token : String) (activeOnly : Bool) (now : V)
  | authenticate (token : String) (now : V)
  | revoke (token : String)
  | rotate (c : RotateCall V)
  | cleanup (now : V)
  | restart (environ : KeyState.Environ) (now : V)

namespace KeyState

variable {V : Type} (env : KeyEnv V)

/-- The state after an operation. -/
def step (s : KeyState V) : KeyOp V → KeyState V
  | .register c => (registerApiKey env s c).2
  | .getEntitlement token activeOnly now => (getEntitlement env s token activeOnly now).2
  | .authenticate token now => (authenticate env s token now).2
  | .revoke token => (revokeApiKey env s token).2
  | .rotate c => (rotateApiKey env s c).2
  | .cleanup now => (cleanupExpiredRotatedKeys env s now).2
  | .restart environ now => start env s.rows environ now

/-- The tokens that an operation registers keys for. -/
def registered (s : KeyState V) : KeyOp V → List String
  | .register c => [tokenFor s.keys c.draws c.token]
  | .rotate c => (rotateApiKey env s c).1.toOption.toList.map (·.1.token)
  | _ => []

/-- The keys that an operation hands to its caller. -/
def handed (s : KeyState V) : KeyOp V → List (ClientEntitlement V)
  | .register c => (registerApiKey env s c).1.toOption.toList
  | .getEntitlement token activeOnly now => (getEntitlement env s token activeOnly now).1.toList
  | .rotate c => (rotateApiKey env s c).1.toOption.toList.flatMap (fun keys => [keys.1, keys.2])
  | _ => []

end KeyState

end Security

end Mdrap
