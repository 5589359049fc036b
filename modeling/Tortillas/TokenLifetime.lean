/-
**How long a token is taken.**

`dht/token.rs`: the secret of the tokens is exchanged when a call comes and the present one has been there for the
rotation interval, and not before.  It is then kept as the previous one, unless it has been there for twice the
interval, in which case both secrets are new.  So the life of a token depends on when other calls come: it is an
interval at least, and less than three.

Tokens are hashes that have been cut, so that two of them may be the same by chance.  The results that say that a
token is refused assume that this does not happen for the secrets that were drawn and the addresses in question.

The clock counts from some origin.  Its readings are less than the longest `Duration`, which is 584 thousand million
years.

Main definitions:

* `TokenManager.drawnAt` — the secrets that are drawn in a call;
* `TokenRun`, `tokenSystem` — a token manager with the tokens it has given out, and a call as a step;
* `Tells` — the tokens of some secrets and addresses are different;
* `TokenRun.Current`, `TokenRun.Previous`, `TokenRun.Gone` — what may have become of the secret of a token.

Main results:

* `TokenManager.rotateIfNeeded_cases` — what a call does to the secrets;
* `TokenRun.Sound.apply` — the secret of a token that was given out is the current one, the previous one, or gone;
* `token_lifetime` — **a token is taken for one interval, and not after three**, and from no other address.
-/

import Tortillas.DhtState

set_option relaxedAutoImplicit false
set_option autoImplicit false

namespace Tortillas

/-! ### A call -/

namespace TokenManager

variable {t : TokenManager} {input : QueryInput}

/-- The secrets that are drawn in a call. -/
def drawnAt (t : TokenManager) (input : QueryInput) : List Secret :=
  let elapsed := input.tokenNow - t.rotatedAt
  if elapsed < t.rotationInterval then []
  else if elapsed < min (t.rotationInterval * retainedTokenGenerations) durationMax then [input.freshCurrent]
  else [input.freshPrevious, input.freshCurrent]

/-- **What a call does to the secrets**: nothing in the first interval; in the second one the current secret becomes
the previous one; and after that both are new. -/
theorem rotateIfNeeded_cases (hclock : input.tokenNow < durationMax) :
    (input.tokenNow - t.rotatedAt < t.rotationInterval ∧ t.rotateIfNeeded input = t ∧ t.drawnAt input = []) ∨
    (t.rotationInterval ≤ input.tokenNow - t.rotatedAt ∧
      input.tokenNow - t.rotatedAt < 2 * t.rotationInterval ∧
      t.rotateIfNeeded input =
        ⟨input.freshCurrent, t.currentSecret, input.rotatedNow, t.rotationInterval⟩ ∧
      t.drawnAt input = [input.freshCurrent]) ∨
    (2 * t.rotationInterval ≤ input.tokenNow - t.rotatedAt ∧
      t.rotateIfNeeded input =
        ⟨input.freshCurrent, input.freshPrevious, input.rotatedNow, t.rotationInterval⟩ ∧
      t.drawnAt input = [input.freshPrevious, input.freshCurrent]) := by
  have hsecond : input.tokenNow - t.rotatedAt < min (t.rotationInterval * retainedTokenGenerations) durationMax ↔
      input.tokenNow - t.rotatedAt < 2 * t.rotationInterval := by
    rw [retainedTokenGenerations]
    omega
  unfold rotateIfNeeded drawnAt
  simp only [hsecond]
  by_cases hfirst : input.tokenNow - t.rotatedAt < t.rotationInterval
  · exact .inl ⟨hfirst, if_pos hfirst, if_pos hfirst⟩
  · rw [if_neg hfirst, if_neg hfirst]
    by_cases hkept : input.tokenNow - t.rotatedAt < 2 * t.rotationInterval
    · rw [if_pos hkept, if_pos hkept]
      exact .inr (.inl ⟨Nat.not_lt.1 hfirst, hkept, rfl, rfl⟩)
    · rw [if_neg hkept, if_neg hkept]
      exact .inr (.inr ⟨Nat.not_lt.1 hkept, rfl, rfl⟩)

end TokenManager

/-! ### Runs -/

/-- A token that was given out. -/
structure IssuedToken where
  ip : IpAddr
  issuedAt : ℕ
  bytes : Bytes
  deriving DecidableEq

inductive TokenCall
  | generate (ip : IpAddr)
  | verify (candidate : Bytes) (ip : IpAddr)

/-- A token manager, with the last reading of the clock, the secrets that were drawn, and the tokens that were given
out. -/
structure TokenRun where
  tokens : TokenManager
  now : ℕ
  drawn : List Secret
  issued : List IssuedToken

namespace TokenRun

/-- The clock is read once in a call, and does not go back; and no secret is drawn twice. -/
structure Admits (s : TokenRun) (input : QueryInput) : Prop where
  once : input.rotatedNow = input.tokenNow
  later : s.now ≤ input.tokenNow
  clock : input.tokenNow < durationMax
  fresh : (s.drawn ++ s.tokens.drawnAt input).Nodup

def apply (sha1 : Bytes → Bytes) (s : TokenRun) (call : TokenCall) (input : QueryInput) : TokenRun :=
  { tokens :=
      match call with
      | .generate ip => (s.tokens.generate sha1 ip input).1
      | .verify candidate ip => (s.tokens.verify sha1 candidate ip input).1
    now := input.tokenNow
    drawn := s.drawn ++ s.tokens.drawnAt input
    issued :=
      match call with
      | .generate ip => s.issued ++ [⟨ip, input.tokenNow, (s.tokens.generate sha1 ip input).2⟩]
      | .verify _ _ => s.issued }

end TokenRun

/-- A token manager with the given interval, from its beginning. -/
def tokenSystem (sha1 : Bytes → Bytes) (interval : ℕ) : System TokenRun (TokenCall × QueryInput) where
  init s := ∃ current previous now, current ≠ previous ∧
    s = ⟨⟨current, previous, now, interval⟩, now, [current, previous], []⟩
  step s i t := s.Admits i.2 ∧ t = s.apply sha1 i.1 i.2

/-- The tokens of these secrets and addresses are all different. -/
def Tells (sha1 : Bytes → Bytes) (secrets : List Secret) (ips : List IpAddr) : Prop :=
  ∀ secret ∈ secrets, ∀ secret' ∈ secrets, ∀ ip ∈ ips, ∀ ip' ∈ ips,
    token sha1 secret ip = token sha1 secret' ip' → secret = secret' ∧ ip = ip'

/-- The tokens are compared pair by pair. -/
theorem tells_iff {sha1 : Bytes → Bytes} {secrets : List Secret} {ips : List IpAddr} :
    Tells sha1 secrets ips ↔ ∀ a ∈ secrets.product ips, ∀ b ∈ secrets.product ips,
      token sha1 a.1 a.2 = token sha1 b.1 b.2 → a = b := by
  constructor
  · rintro htells ⟨secret, ip⟩ ha ⟨secret', ip'⟩ hb heq
    obtain ⟨hsecret, hip⟩ := List.pair_mem_product.1 ha
    obtain ⟨hsecret', hip'⟩ := List.pair_mem_product.1 hb
    obtain ⟨rfl, rfl⟩ := htells secret hsecret secret' hsecret' ip hip ip' hip' heq
    rfl
  · intro hpairs secret hsecret secret' hsecret' ip hip ip' hip' heq
    exact Prod.mk.inj (hpairs (secret, ip) (List.pair_mem_product.2 ⟨hsecret, hip⟩) (secret', ip')
      (List.pair_mem_product.2 ⟨hsecret', hip'⟩) heq)

instance (sha1 : Bytes → Bytes) (secrets : List Secret) (ips : List IpAddr) : Decidable (Tells sha1 secrets ips) :=
  decidable_of_iff _ tells_iff.symm

namespace TokenRun

variable {sha1 : Bytes → Bytes} {interval : ℕ} {s : TokenRun} {input : QueryInput} {secret : Secret}
  {issuedAt : ℕ}

/-! ### The secret of a token -/

/-- The secret is the current one, and it was when the token was given out. -/
def Current (t : TokenManager) (secret : Secret) (issuedAt : ℕ) : Prop :=
  secret = t.currentSecret ∧ t.rotatedAt ≤ issuedAt ∧ issuedAt < t.rotatedAt + t.rotationInterval

/-- The secret is the previous one: it became so in its second interval. -/
def Previous (t : TokenManager) (secret : Secret) (issuedAt : ℕ) : Prop :=
  secret = t.previousSecret ∧ ∃ since, since ≤ issuedAt ∧ issuedAt < since + t.rotationInterval ∧
    since + t.rotationInterval ≤ t.rotatedAt ∧ t.rotatedAt < since + 2 * t.rotationInterval

/-- The secret is none of the two any more, and an interval is over. -/
def Gone (t : TokenManager) (now : ℕ) (secret : Secret) (issuedAt : ℕ) : Prop :=
  ¬ t.Knows secret ∧ issuedAt + t.rotationInterval < now

/-- What has become of the secret of a token. -/
def Status (t : TokenManager) (now : ℕ) (secret : Secret) (issuedAt : ℕ) : Prop :=
  Current t secret issuedAt ∨ Previous t secret issuedAt ∨ Gone t now secret issuedAt

/-- What holds after every call. -/
structure Sound (sha1 : Bytes → Bytes) (interval : ℕ) (s : TokenRun) : Prop where
  interval : s.tokens.rotationInterval = interval
  rotated : s.tokens.rotatedAt ≤ s.now
  current : s.tokens.currentSecret ∈ s.drawn
  previous : s.tokens.previousSecret ∈ s.drawn
  distinct : s.tokens.currentSecret ≠ s.tokens.previousSecret
  issued : ∀ i ∈ s.issued, ∃ secret ∈ s.drawn, i.bytes = token sha1 secret i.ip ∧
    Status s.tokens s.now secret i.issuedAt

/-- The manager after a call. -/
theorem tokens_apply (call : TokenCall) : (s.apply sha1 call input).tokens = s.tokens.rotateIfNeeded input := by
  cases call <;> rfl

/-- A secret that was drawn is none of those that are drawn later. -/
theorem Admits.not_mem (h : s.Admits input) (hsecret : secret ∈ s.drawn) : secret ∉ s.tokens.drawnAt input := by
  intro hmem
  exact (List.nodup_append.1 h.fresh).2.2 secret hsecret secret hmem rfl

/-- **The status of a secret after a call.** -/
theorem Sound.status_rotate (hs : s.Sound sha1 interval) (h : s.Admits input) (hsecret : secret ∈ s.drawn)
    (hstatus : Status s.tokens s.now secret issuedAt) :
    Status (s.tokens.rotateIfNeeded input) input.tokenNow secret issuedAt := by
  have hlater := h.later
  have hrotated := hs.rotated
  have hnot := h.not_mem hsecret
  rcases s.tokens.rotateIfNeeded_cases h.clock with ⟨hfirst, heq, -⟩ | ⟨hlow, hhigh, heq, hdrawn⟩ |
    ⟨hlow, heq, hdrawn⟩
  · rw [heq]
    refine hstatus.imp_right (Or.imp_right ?_)
    rintro ⟨hgone, hover⟩
    exact ⟨hgone, by omega⟩
  · rw [hdrawn, List.mem_singleton] at hnot
    rw [heq]
    rcases hstatus with ⟨hcurrent, hsince, hbefore⟩ | ⟨hprevious, since, hsince, hbefore, hfrom, hto⟩ |
      ⟨hgone, hover⟩
    · refine .inr (.inl ⟨hcurrent, s.tokens.rotatedAt, hsince, hbefore, ?_, ?_⟩)
      · dsimp only
        rw [h.once]
        omega
      · dsimp only
        rw [h.once]
        omega
    · refine .inr (.inr ⟨?_, by dsimp only; omega⟩)
      rintro (hnew | hold)
      · exact hnot hnew
      · exact hs.distinct (hold.symm.trans hprevious)
    · refine .inr (.inr ⟨?_, by dsimp only; omega⟩)
      rintro (hnew | hold)
      · exact hnot hnew
      · exact hgone (.inl hold)
  · rw [hdrawn, List.mem_cons, List.mem_singleton, not_or] at hnot
    rw [heq]
    refine .inr (.inr ⟨?_, ?_⟩)
    · rintro (hnew | hnew)
      · exact hnot.2 hnew
      · exact hnot.1 hnew
    · dsimp only
      rcases hstatus with ⟨-, -, hbefore⟩ | ⟨-, since, -, hbefore, hfrom, -⟩ | ⟨-, hover⟩ <;> omega

/-- After a call the present interval is not over. -/
theorem Sound.rotate_spec (hs : s.Sound sha1 interval) (hpos : 0 < interval) (h : s.Admits input) :
    (s.tokens.rotateIfNeeded input).rotationInterval = interval ∧
      (s.tokens.rotateIfNeeded input).rotatedAt ≤ input.tokenNow ∧
      input.tokenNow < (s.tokens.rotateIfNeeded input).rotatedAt + interval ∧
      (s.tokens.rotateIfNeeded input).currentSecret ∈ s.drawn ++ s.tokens.drawnAt input ∧
      (s.tokens.rotateIfNeeded input).previousSecret ∈ s.drawn ++ s.tokens.drawnAt input ∧
      (s.tokens.rotateIfNeeded input).currentSecret ≠ (s.tokens.rotateIfNeeded input).previousSecret := by
  have hinterval := hs.interval
  have hrotated := hs.rotated
  have hlater := h.later
  have honce := h.once
  have hfresh := h.fresh
  rcases s.tokens.rotateIfNeeded_cases h.clock with ⟨hfirst, heq, hdrawn⟩ | ⟨-, -, heq, hdrawn⟩ | ⟨-, heq, hdrawn⟩
  · rw [heq, hdrawn, List.append_nil]
    exact ⟨hinterval, by omega, by omega, hs.current, hs.previous, hs.distinct⟩
  · rw [hdrawn] at hfresh
    rw [heq, hdrawn]
    have hnew := (List.nodup_append.1 hfresh).2.2 _ hs.current _ (List.mem_singleton_self _)
    exact ⟨hinterval, honce.le, by dsimp only; omega, by simp, List.mem_append_left _ hs.current, hnew.symm⟩
  · rw [hdrawn] at hfresh
    rw [heq, hdrawn]
    have hnew := (List.nodup_append.1 hfresh).2.1
    exact ⟨hinterval, honce.le, by dsimp only; omega, by simp, by simp,
      fun hsame => (List.nodup_cons.1 hnew).1 (List.mem_singleton.2 hsame.symm)⟩

/-- **The secret of every token that was given out has one of the three statuses after every call.** -/
theorem Sound.apply (hs : s.Sound sha1 interval) (hpos : 0 < interval) (h : s.Admits input) (call : TokenCall) :
    (s.apply sha1 call input).Sound sha1 interval := by
  obtain ⟨hinterval, hrotated, hbefore, hcurrent, hprevious, hdistinct⟩ := hs.rotate_spec hpos h
  have hold : ∀ i ∈ s.issued, ∃ secret ∈ s.drawn ++ s.tokens.drawnAt input, i.bytes = token sha1 secret i.ip ∧
      Status (s.tokens.rotateIfNeeded input) input.tokenNow secret i.issuedAt := by
    intro i hi
    obtain ⟨secret, hsecret, hbytes, hstatus⟩ := hs.issued i hi
    exact ⟨secret, List.mem_append_left _ hsecret, hbytes, hs.status_rotate h hsecret hstatus⟩
  have hissued : ∀ i ∈ (s.apply sha1 call input).issued, ∃ secret ∈ s.drawn ++ s.tokens.drawnAt input,
      i.bytes = token sha1 secret i.ip ∧
        Status (s.tokens.rotateIfNeeded input) input.tokenNow secret i.issuedAt := by
    cases call with
    | verify candidate ip => exact hold
    | generate ip =>
        intro i hi
        rcases List.mem_append.1 hi with hi | hi
        · exact hold i hi
        · obtain rfl := List.mem_singleton.1 hi
          exact ⟨_, hcurrent, rfl, .inl ⟨rfl, hrotated, by rw [hinterval]; exact hbefore⟩⟩
  have htokens : (s.apply sha1 call input).tokens = s.tokens.rotateIfNeeded input := tokens_apply call
  refine ⟨?_, ?_, ?_, ?_, ?_, ?_⟩
  · rw [htokens]
    exact hinterval
  · rw [htokens]
    exact hrotated
  · rw [htokens]
    exact hcurrent
  · rw [htokens]
    exact hprevious
  · rw [htokens]
    exact hdistinct
  · rw [htokens]
    exact hissued

theorem sound_of_reach (hpos : 0 < interval) (h : (tokenSystem sha1 interval).Reach (fun _ _ => True) s) :
    s.Sound sha1 interval := by
  refine h.invariant ?_ ?_
  · rintro s ⟨current, previous, now, hne, rfl⟩
    exact ⟨rfl, Nat.le_refl _, by simp, by simp, hne, nofun⟩
  · rintro s ⟨call, input⟩ t hs - ⟨hadmits, rfl⟩
    exact hs.apply hpos hadmits call

/-- A secret that is still known was the current one not too long ago. -/
theorem Sound.lt_of_knows (hs : s.Sound sha1 interval) (hpos : 0 < interval) (h : s.Admits input)
    (hstatus : Status (s.tokens.rotateIfNeeded input) input.tokenNow secret issuedAt)
    (hknows : (s.tokens.rotateIfNeeded input).Knows secret) : input.tokenNow < issuedAt + 3 * interval := by
  obtain ⟨hinterval, hrotated, hbefore, -⟩ := hs.rotate_spec hpos h
  rcases hstatus with ⟨-, hsince, -⟩ | ⟨-, since, hsince, -, -, hto⟩ | ⟨hgone, -⟩
  · omega
  · rw [hinterval] at hto
    omega
  · exact absurd hknows hgone

/-- A secret is known for an interval. -/
theorem Sound.knows_of_le (hs : s.Sound sha1 interval) (hpos : 0 < interval) (h : s.Admits input)
    (hstatus : Status (s.tokens.rotateIfNeeded input) input.tokenNow secret issuedAt)
    (hle : input.tokenNow ≤ issuedAt + interval) : (s.tokens.rotateIfNeeded input).Knows secret := by
  obtain ⟨hinterval, -⟩ := hs.rotate_spec hpos h
  rcases hstatus with ⟨hcurrent, -⟩ | ⟨hprevious, -⟩ | ⟨-, hover⟩
  · exact .inl hcurrent
  · exact .inr hprevious
  · rw [hinterval] at hover
    omega

end TokenRun

/-- **A token lives between one and three intervals.**  After any calls at times that do not decrease, a token that
was given out to an address is taken from it for an interval at least; it is not taken any more when three intervals
are over, and never from another address, if the tokens of the secrets that were drawn and of the addresses are
different. -/
theorem token_lifetime {sha1 : Bytes → Bytes} {interval : ℕ} (hpos : 0 < interval) {s : TokenRun}
    (h : (tokenSystem sha1 interval).Reach (fun _ _ => True) s) {issued : IssuedToken} (hissued : issued ∈ s.issued)
    {input : QueryInput} (hadmits : s.Admits input) :
    (input.tokenNow - issued.issuedAt ≤ interval →
      (s.tokens.verify sha1 issued.bytes issued.ip input).2 = true) ∧
    ∀ ip, Tells sha1 (s.drawn ++ s.tokens.drawnAt input) [issued.ip, ip] →
      3 * interval ≤ input.tokenNow - issued.issuedAt ∨ ip ≠ issued.ip →
      (s.tokens.verify sha1 issued.bytes ip input).2 = false := by
  have hs := TokenRun.sound_of_reach hpos h
  obtain ⟨secret, hsecret, hbytes, hold⟩ := hs.issued issued hissued
  have hstatus := hs.status_rotate hadmits hsecret hold
  constructor
  · intro hle
    refine TokenManager.verify_iff.2 ⟨secret, hs.knows_of_le hpos hadmits hstatus (by omega), hbytes⟩
  · intro ip htells hwrong
    refine Bool.eq_false_iff.2 fun htaken => ?_
    obtain ⟨other, hknows, hsame⟩ := TokenManager.verify_iff.1 htaken
    have hother : other ∈ s.drawn ++ s.tokens.drawnAt input := by
      obtain ⟨-, -, -, hcurrent, hprevious, -⟩ := hs.rotate_spec hpos hadmits
      rcases hknows with rfl | rfl
      · exact hcurrent
      · exact hprevious
    -- the token is the one of its own secret and address only
    obtain ⟨rfl, hip⟩ := htells secret (List.mem_append_left _ hsecret) other hother issued.ip (by simp) ip (by simp)
      (hbytes.symm.trans hsame)
    rcases hwrong with hlate | hne
    · have hlt := hs.lt_of_knows hpos hadmits hstatus hknows
      omega
    · exact hne hip.symm

namespace Sample

/-- SHA-1, for two secrets and two addresses. -/
def tokenDigests (bytes : Bytes) : Bytes :=
  if bytes = List.replicate 20 1 ++ [10, 0, 0, 1] then
    [186, 252, 123, 151, 65, 253, 10, 13, 167, 189, 204, 116, 117, 44, 184, 185, 244, 167, 194, 115]
  else if bytes = List.replicate 20 1 ++ [10, 0, 0, 2] then
    [59, 220, 202, 61, 12, 124, 171, 35, 80, 204, 240, 127, 122, 127, 107, 11, 137, 175, 58, 103]
  else if bytes = List.replicate 20 2 ++ [10, 0, 0, 1] then
    [150, 164, 72, 2, 61, 221, 159, 176, 100, 245, 85, 115, 254, 198, 124, 220, 83, 229, 74, 254]
  else if bytes = List.replicate 20 2 ++ [10, 0, 0, 2] then
    [41, 53, 233, 146, 36, 206, 216, 229, 239, 246, 233, 40, 176, 81, 159, 184, 94, 195, 146, 128]
  else []

/-- A token manager with an interval of five minutes. -/
def freshTokens : TokenRun :=
  ⟨⟨.replicate 20 1, .replicate 20 2, 0, 300000000000⟩, 0, [.replicate 20 1, .replicate 20 2], []⟩

/-- Everything happens at one time. -/
def callAt (now : ℕ) : QueryInput :=
  ⟨now, .replicate 20 3, .replicate 20 4, now, now, now, (now, now), (now, now), now⟩

/-- A token is given out in the first second. -/
def oneToken : TokenRun := freshTokens.apply tokenDigests (.generate nodeAddr.ip) (callAt 1000000000)

end Sample

/-- A minute later it is taken from its address, and not from another one. -/
theorem token_lifetime_sample :
    (Sample.oneToken.tokens.verify Sample.tokenDigests
      [186, 252, 123, 151, 65, 253, 10, 13] (.v4 #v[10, 0, 0, 1]) (Sample.callAt 61000000000)).2 = true ∧
    (Sample.oneToken.tokens.verify Sample.tokenDigests
      [186, 252, 123, 151, 65, 253, 10, 13] (.v4 #v[10, 0, 0, 2]) (Sample.callAt 61000000000)).2 = false := by
  have hadmits : ∀ now, now < 300000000000 → Sample.freshTokens.Admits (Sample.callAt now) := by
    intro now hnow
    have hdrawn : Sample.freshTokens.tokens.drawnAt (Sample.callAt now) = [] := if_pos hnow
    refine ⟨rfl, Nat.zero_le _, hnow.trans (by decide), ?_⟩
    rw [hdrawn]
    decide
  have hreach : (tokenSystem Sample.tokenDigests 300000000000).Reach (fun _ _ => True) Sample.oneToken :=
    System.Reach.step (i := (.generate (.v4 #v[10, 0, 0, 1]), Sample.callAt 1000000000))
      (.init ⟨.replicate 20 1, .replicate 20 2, 0, by decide, rfl⟩) trivial ⟨hadmits _ (by decide), rfl⟩
  have hissued : ⟨.v4 #v[10, 0, 0, 1], 1000000000, [186, 252, 123, 151, 65, 253, 10, 13]⟩ ∈ Sample.oneToken.issued := by
    decide +kernel
  have hlater : Sample.oneToken.Admits (Sample.callAt 61000000000) := ⟨rfl, by decide, by decide, by decide +kernel⟩
  obtain ⟨htaken, hrefused⟩ := token_lifetime (by decide) hreach hissued hlater
  exact ⟨htaken (by decide), hrefused _ (by decide +kernel) (.inr (by decide))⟩

end Tortillas
