import SeaStore.Posix.Bytes

/-!
Tokens of the DHT. A node hands a token to whoever asks for values, and takes
an announcement only with a token that it would hand out to the sender now, or
would have before the last change of its secret. The hash that makes a token
of the secret, the address and the port is a callback of this program, which
makes a key of the three and leaves the token as it was.
-/
namespace SeaStore.Controller

open Posix

/-- `TOKEN_SIZE`, and the size of a secret as well. -/
def tokenSize : ℕ := 8

abbrev Token := Vector UInt8 tokenSize

/-- Eight times the same byte. -/
def Token.fill (b : UInt8) : Token := .replicate tokenSize b

structure Secrets where
  secret : Token
  oldsecret : Token

/-- The address and the port that a request comes from, in network order. -/
inductive Sockaddr
  | inet (addr : Vector UInt8 4) (port : Vector UInt8 2)
  | inet6 (addr : Vector UInt8 16) (port : Vector UInt8 2)
  | other (family : UInt16)

/-- `CRYPT_HAPPY`, the character being signed. -/
def cryptHappy (c : UInt8) : UInt8 := UInt8.ofInt (c.toInt8.toInt.tmod 0x60 + 0x20)

/-- At most `width` characters of `bytes`, and zeros behind them. -/
def cryptPart (bytes : Bytes) (width : ℕ) : Bytes :=
  (bytes.take width).map cryptHappy ++ List.replicate (width - bytes.length) 0

/-- The key that the hash is to be made of. The length of the first argument
bounds all three loops. -/
def cryptKey (v1 v2 v3 : Bytes) : Bytes :=
  cryptPart v1 2 ++ cryptPart (v2.take v1.length) 4 ++ cryptPart (v3.take v1.length) 2 ++ [0]

/-- The line that would store the hash is commented out. -/
def dhtHash (hashReturn : Token) (v1 v2 v3 : Bytes) : Token :=
  let _key := cryptKey v1 v2 v3
  hashReturn

/-- What `dht_random_bytes` returns, and what it leaves in `secret`. -/
structure Rotation where
  rc : ℤ
  secret : Token

def rotateSecrets (s : Secrets) (r : Rotation) : ℤ × Secrets :=
  (if r.rc < 0 then -1 else 1, ⟨r.secret, s.secret⟩)

def Secrets.rotate (s : Secrets) (rotations : List Rotation) : Secrets :=
  rotations.foldl (fun s r => (rotateSecrets s r).2) s

/-- The buffer `tokenReturn` after the call; there is none for another family,
for which the program is aborted. -/
def makeToken (s : Secrets) (sa : Sockaddr) (old : Bool) (tokenReturn : Token) : Option Token :=
  let secret := if old then s.oldsecret else s.secret
  match sa with
  | .inet addr port =>
    some (dhtHash tokenReturn secret.toList addr.toList port.toList.reverse)
  | .inet6 addr port =>
    some (dhtHash tokenReturn secret.toList addr.toList port.toList.reverse)
  | .other _ => none

/-- `t` is what the local array of that name holds before anything is stored in it. -/
def tokenMatch (s : Secrets) (t : Token) (token : Bytes) (sa : Sockaddr) : Option Bool := do
  if token.length ≠ tokenSize then return false
  let t ← makeToken s sa false t
  if t.toList = token then return true
  let t ← makeToken s sa true t
  return t.toList = token

def Sockaddr.IsInet : Sockaddr → Prop
  | .inet .. => True
  | .inet6 .. => True
  | .other _ => False

/-- As it should be, for tokens issued to one address: the token is accepted
after at most one rotation, and is issued again from the same secret. The last
three are the contents of the buffers of the two issues and of the check. -/
def TokenVerifiable (s : Secrets) (before between : List Rotation) (sa : Sockaddr)
    (issued again checked : Token) : Prop :=
  between.length ≤ 1 →
    ∃ token, makeToken (s.rotate before) sa false issued = some token ∧
      tokenMatch ((s.rotate before).rotate between) checked token.toList sa = some true ∧
      ∀ s', s'.secret = (s.rotate before).secret → makeToken s' sa false again = some token

/-- Whatever the secret and the address, a token is what stood in its buffer. -/
theorem makeToken_eq {sa : Sockaddr} (hsa : sa.IsInet) (s : Secrets) (old : Bool)
    (tokenReturn : Token) : makeToken s sa old tokenReturn = some tokenReturn := by
  cases sa with
  | inet addr port => rfl
  | inet6 addr port => rfl
  | other family => exact absurd hsa id

theorem tokenMatch_eq {sa : Sockaddr} (hsa : sa.IsInet) (s : Secrets) (t token : Token) :
    tokenMatch s t token.toList sa = some (decide (t = token)) := by
  have hlen : token.toList.length = tokenSize := by simp
  have heq : t.toList = token.toList ↔ t = token := Vector.toList_inj
  unfold tokenMatch
  by_cases hsame : t = token
  · simp [makeToken_eq hsa, hlen, hsame]
  · simp [makeToken_eq hsa, hlen, heq, hsame]

/-- Tokens can be verified exactly as far as the buffers held the same bytes before. -/
theorem tokenVerifiable_iff {sa : Sockaddr} (hsa : sa.IsInet) (s : Secrets)
    (before between : List Rotation) (issued again checked : Token) :
    TokenVerifiable s before between sa issued again checked ↔
      (between.length ≤ 1 → checked = issued ∧ again = issued) := by
  unfold TokenVerifiable
  refine imp_congr_right fun _ => ?_
  simp only [makeToken_eq hsa, tokenMatch_eq hsa, Option.some.injEq, decide_eq_true_eq]
  constructor
  · intro hverifiable
    obtain ⟨token, rfl, hchecked, hagain⟩ := hverifiable
    exact ⟨hchecked, hagain _ rfl⟩
  · intro hsame
    exact ⟨issued, rfl, hsame.1, fun _ _ => hsame.2⟩

def localNode : Sockaddr := .inet #v[127, 0, 0, 1] #v[0x1a, 0xe1]

theorem localNode_isInet : localNode.IsInet := trivial

/-- All buffers were cleared memory, and the secret has changed once. -/
theorem tokenVerifiable_cleared :
    TokenVerifiable ⟨.fill 1, .fill 2⟩ [⟨8, .fill 3⟩] [⟨8, .fill 4⟩] localNode (.fill 0) (.fill 0)
      (.fill 0) :=
  (tokenVerifiable_iff localNode_isInet ⟨.fill 1, .fill 2⟩ [⟨8, .fill 3⟩] [⟨8, .fill 4⟩]
    (.fill 0) (.fill 0) (.fill 0)).mpr fun _ => ⟨rfl, rfl⟩

/-- The secret is still the same, but other bytes stood on the stack. -/
theorem tokenVerifiable_fails_stack :
    tokenMatch ⟨.fill 1, .fill 2⟩ (.fill 7) (Token.fill 0).toList localNode = some false ∧
      ¬ TokenVerifiable ⟨.fill 1, .fill 2⟩ [] [] localNode (.fill 0) (.fill 0) (.fill 7) := by
  refine ⟨by decide, ?_⟩
  intro hverifiable
  obtain ⟨token, htoken, hmatch, -⟩ := hverifiable (Nat.zero_le 1)
  obtain rfl : Token.fill 0 = token := Option.some.inj htoken
  exact absurd hmatch (by decide)

end SeaStore.Controller
