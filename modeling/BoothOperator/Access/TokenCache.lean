import BoothOperator.Access.ApiTokens
import BoothOperator.Lib.Digest

/-! The cache of verified tokens does not show. An entry says that a text was
once accepted for a row, and since a row keeps its id, its lookup id and its
hash, the text is accepted for that row as long as the row can be used: reading
the row by its id answers what the look-up and the hash check would. -/
namespace BoothOperator.Access

variable {sha256 : String → String} {argon2Verify : String → String → Bool}

/-- What of a row never changes. -/
def identities (apiToken : List ApiToken) : List (String × String × String) :=
  apiToken.map fun token => (token.id, token.lookupId, token.tokenHash)

/-- The text is that of the row. -/
def Accepts (argon2Verify : String → String → Bool) (apiToken : List ApiToken)
    (tokenId plaintext : String) : Prop :=
  ∃ lookupId tokenHash, (tokenId, lookupId, tokenHash) ∈ identities apiToken ∧
    lookupIdFromPlaintext plaintext = some lookupId ∧ argon2Verify tokenHash plaintext = true

/-- Every entry was made for a text of its row. -/
def CacheSound (sha256 : String → String) (argon2Verify : String → String → Bool)
    (apiToken : List ApiToken) (cache : TokenCache) : Prop :=
  ∀ key entry, cache.get key = some entry →
    ∃ plaintext, sha256 plaintext = key ∧ Accepts argon2Verify apiToken entry.tokenId plaintext

def Call.Sound (sha256 : String → String) (argon2Verify : String → String → Bool)
    (apiToken : List ApiToken) : Call → Prop
  | .hit plaintext _ tokenId => Accepts argon2Verify apiToken tokenId plaintext
  | .missed plaintext key lookupId =>
    sha256 plaintext = key ∧ lookupIdFromPlaintext plaintext = some lookupId
  | .verifying plaintext key token seen seenAt =>
    sha256 plaintext = key ∧ lookupIdFromPlaintext plaintext = some token.lookupId ∧
      findActiveTokenByLookupId seen seenAt token.lookupId = some token ∧
      (token.id, token.lookupId, token.tokenHash) ∈ identities apiToken

/-- The call returned what the path without the cache does. -/
def Answer.Transparent (argon2Verify : String → String → Bool) (answer : Answer) : Prop :=
  answer.result = Verifier.verifyUncached argon2Verify answer.apiToken answer.now answer.plaintext

structure Verifier.Sound (sha256 : String → String) (argon2Verify : String → String → Bool)
    (world : Verifier) : Prop where
  ids : (world.apiToken.map ApiToken.id).Nodup
  lookupIds : (world.apiToken.map ApiToken.lookupId).Nodup
  cache : CacheSound sha256 argon2Verify world.apiToken world.validTokenCache
  bounded : world.validTokenCache.size ≤ cacheCapacity
  calls : ∀ call ∈ world.calls, call.Sound sha256 argon2Verify world.apiToken
  answers : ∀ answer ∈ world.answers, answer.Transparent argon2Verify

/-! ## The table -/

section Tables

variable {apiToken rows : List ApiToken} {tokenId plaintext : String} {now : Nat}

theorem Accepts.mono (accepts : Accepts argon2Verify apiToken tokenId plaintext)
    (kept : identities apiToken ⊆ identities rows) :
    Accepts argon2Verify rows tokenId plaintext := by
  obtain ⟨lookupId, tokenHash, member, rest⟩ := accepts
  exact ⟨lookupId, tokenHash, kept member, rest⟩

theorem Call.Sound.mono {call : Call} (sound : call.Sound sha256 argon2Verify apiToken)
    (kept : identities apiToken ⊆ identities rows) : call.Sound sha256 argon2Verify rows := by
  cases call with
  | hit plaintext key tokenId => exact Accepts.mono sound kept
  | missed plaintext key lookupId => exact sound
  | verifying plaintext key token seen seenAt =>
    obtain ⟨hashed, looked, found, member⟩ := sound
    exact ⟨hashed, looked, found, kept member⟩

theorem CacheSound.mono {cache : TokenCache}
    (sound : CacheSound sha256 argon2Verify apiToken cache)
    (kept : identities apiToken ⊆ identities rows) : CacheSound sha256 argon2Verify rows cache := by
  intro key entry read
  obtain ⟨plaintext, hashed, accepts⟩ := sound key entry read
  exact ⟨plaintext, hashed, accepts.mono kept⟩

/-- Of a table with unique columns, the row of an id is that of its lookup id. -/
theorem findActive_of_identity {lookupId tokenHash : String}
    (ids : (apiToken.map ApiToken.id).Nodup) (lookupIds : (apiToken.map ApiToken.lookupId).Nodup)
    (member : (tokenId, lookupId, tokenHash) ∈ identities apiToken) :
    findActiveTokenById apiToken now tokenId = findActiveTokenByLookupId apiToken now lookupId ∧
      ∀ token, findActiveTokenByLookupId apiToken now lookupId = some token →
        token.tokenHash = tokenHash := by
  obtain ⟨token, there, same⟩ := List.mem_map.mp member
  simp only [Prod.mk.injEq] at same
  obtain ⟨rfl, rfl, rfl⟩ := same
  have byId : Table.findUnique ApiToken.id token.id apiToken = some token :=
    Table.findUnique_of_mem ids there
  have byLookupId : Table.findUnique ApiToken.lookupId token.lookupId apiToken = some token :=
    Table.findUnique_of_mem lookupIds there
  unfold findActiveTokenById findActiveTokenByLookupId
  rw [byId, byLookupId]
  by_cases usable : isUsableToken now token = true
  · simp [usable]
  · simp [usable]

/-- Where the text is that of the row, the row by its id is the uncached answer. -/
theorem findActive_of_accepts (ids : (apiToken.map ApiToken.id).Nodup)
    (lookupIds : (apiToken.map ApiToken.lookupId).Nodup)
    (accepts : Accepts argon2Verify apiToken tokenId plaintext) :
    findActiveTokenById apiToken now tokenId =
      Verifier.verifyUncached argon2Verify apiToken now plaintext := by
  obtain ⟨lookupId, tokenHash, member, looked, verified⟩ := accepts
  obtain ⟨same, hash⟩ : findActiveTokenById apiToken now tokenId =
      findActiveTokenByLookupId apiToken now lookupId ∧ _ :=
    findActive_of_identity ids lookupIds member
  rw [same, Verifier.verifyUncached, looked, Option.bind_some]
  cases found : findActiveTokenByLookupId apiToken now lookupId with
  | none => rfl
  | some token => rw [Option.filter_some, hash token found, if_pos verified]

/-- An active row is a row of the table, found by its own lookup id. -/
theorem findActiveTokenByLookupId_eq_some {lookupId : String} {token : ApiToken}
    (found : findActiveTokenByLookupId apiToken now lookupId = some token) :
    token ∈ apiToken ∧ token.lookupId = lookupId ∧ isUsableToken now token = true := by
  unfold findActiveTokenByLookupId at found
  cases looked : Table.findUnique ApiToken.lookupId lookupId apiToken with
  | none => simp [looked] at found
  | some row =>
    simp only [looked] at found
    split at found
    · cases found
    · split at found
      · rename_i usable
        cases found
        exact ⟨(Table.findUnique_mem looked).1, (Table.findUnique_mem looked).2, usable⟩
      · cases found

/-- What the uncached path accepts can be used. -/
theorem usable_of_verifyUncached {token : ApiToken}
    (verified : Verifier.verifyUncached argon2Verify apiToken now plaintext = some token) :
    isUsableToken now token = true := by
  unfold Verifier.verifyUncached at verified
  obtain ⟨lookupId, -, kept⟩ := Option.bind_eq_some_iff.mp verified
  exact (findActiveTokenByLookupId_eq_some (Option.filter_eq_some_iff.mp kept).1).2.2

theorem identities_updateMany {found : ApiToken → Bool} {change : ApiToken → ApiToken}
    (kept : ∀ row, (change row).id = row.id ∧ (change row).lookupId = row.lookupId ∧
      (change row).tokenHash = row.tokenHash) :
    identities (Table.updateMany found change apiToken) = identities apiToken := by
  apply Table.map_updateMany
  intro row
  obtain ⟨id, lookupId, tokenHash⟩ := kept row
  rw [id, lookupId, tokenHash]

theorem identities_flushed (updates : List (String × Nat)) :
    identities (Verifier.flushed apiToken updates) = identities apiToken := by
  unfold Verifier.flushed
  induction updates generalizing apiToken with
  | nil => rfl
  | cons update rest ih =>
    rw [List.foldl_cons, ih]
    apply identities_updateMany
    intro row
    exact ⟨rfl, rfl, rfl⟩

theorem map_id_eq (apiToken : List ApiToken) :
    apiToken.map ApiToken.id = (identities apiToken).map Prod.fst := by
  rw [identities, List.map_map]
  rfl

theorem map_lookupId_eq (apiToken : List ApiToken) :
    apiToken.map ApiToken.lookupId = (identities apiToken).map fun key => key.2.1 := by
  rw [identities, List.map_map]
  rfl

end Tables

/-! ## The cache -/

section Caches

variable {apiToken : List ApiToken} {cache smaller : TokenCache} {key tokenId plaintext : String}
  {now : Nat}

/-- A cache whose entries are those of a sound one. -/
theorem CacheSound.of_get (sound : CacheSound sha256 argon2Verify apiToken cache)
    (kept : ∀ key entry, smaller.get key = some entry → cache.get key = some entry) :
    CacheSound sha256 argon2Verify apiToken smaller := by
  intro key entry read
  exact sound key entry (kept key entry read)

theorem get_of_cacheGet {other : String} {entry : CacheEntry}
    (read : (cacheGet now key cache).2.get other = some entry) : cache.get other = some entry := by
  unfold cacheGet at read
  cases there : cache.get key with
  | none => simpa [there] using read
  | some old =>
    simp only [there] at read
    split at read
    · exact (OrderedMap.get_delete_eq_some.mp read).2
    · rcases OrderedMap.get_set_eq_some.mp read with ⟨rfl, rfl⟩ | ⟨-, kept⟩
      · exact there
      · exact (OrderedMap.get_delete_eq_some.mp kept).2

theorem entry_of_cacheGet (read : (cacheGet now key cache).1 = some tokenId) :
    ∃ entry, cache.get key = some entry ∧ entry.tokenId = tokenId := by
  unfold cacheGet at read
  cases there : cache.get key with
  | none => simp [there] at read
  | some entry =>
    simp only [there] at read
    split at read
    · cases read
    · exact ⟨entry, rfl, Option.some.inj read⟩

theorem size_cacheGet_le : (cacheGet now key cache).2.size ≤ cache.size := by
  unfold cacheGet
  cases there : cache.get key with
  | none => exact Nat.le_refl _
  | some entry =>
    simp only
    split
    · exact OrderedMap.size_delete_le
    · have room : (cache.delete key).size < cache.size :=
        OrderedMap.size_delete_lt (OrderedMap.has_eq_true.mpr ⟨entry, there⟩)
      have fresh : ¬ (cache.delete key).has key = true := by simp [OrderedMap.has]
      rw [OrderedMap.size_set_of_not fresh]
      omega

theorem CacheSound.cacheSet (sound : CacheSound sha256 argon2Verify apiToken cache)
    (hashed : sha256 plaintext = key) (accepts : Accepts argon2Verify apiToken tokenId plaintext) :
    CacheSound sha256 argon2Verify apiToken (cacheSet now key tokenId cache) := by
  intro other entry read
  rcases OrderedMap.get_set_eq_some.mp (OrderedMap.get_of_trim read) with ⟨rfl, rfl⟩ | ⟨-, kept⟩
  · exact ⟨plaintext, hashed, accepts⟩
  · exact sound other entry (OrderedMap.get_delete_eq_some.mp kept).2

theorem CacheSound.invalidate (sound : CacheSound sha256 argon2Verify apiToken cache)
    (invalid : Option String) :
    CacheSound sha256 argon2Verify apiToken (invalidateApiTokenCache invalid cache) ∧
      (invalidateApiTokenCache invalid cache).size ≤ cache.size := by
  have nothing : CacheSound sha256 argon2Verify apiToken .empty := by
    intro key entry read
    cases read
  cases invalid with
  | none => exact ⟨nothing, Nat.zero_le _⟩
  | some tokenId =>
    unfold invalidateApiTokenCache
    by_cases blank : tokenId = ""
    · simp only [if_pos blank]
      exact ⟨nothing, Nat.zero_le _⟩
    · simp only [if_neg blank]
      refine ⟨sound.of_get ?_, OrderedMap.size_filter_le _⟩
      intro key entry read
      exact (OrderedMap.get_filter.mp read).1

end Caches

/-! ## Turns -/

namespace Verifier

variable {world after : Verifier}

/-- A writer of the table adds rows, or changes what is not their identity. -/
theorem Sound.of_table (sound : world.Sound sha256 argon2Verify) {rows : List ApiToken}
    {updates : OrderedMap String Nat} (kept : identities world.apiToken ⊆ identities rows)
    (ids : (rows.map ApiToken.id).Nodup) (lookupIds : (rows.map ApiToken.lookupId).Nodup) :
    { world with apiToken := rows, pendingUsageUpdates := updates }.Sound sha256 argon2Verify where
  ids := ids
  lookupIds := lookupIds
  cache := sound.cache.mono kept
  bounded := sound.bounded
  calls call member := (sound.calls call member).mono kept
  answers := sound.answers

theorem Sound.of_identities (sound : world.Sound sha256 argon2Verify) {rows : List ApiToken}
    {updates : OrderedMap String Nat} (same : identities rows = identities world.apiToken) :
    { world with apiToken := rows, pendingUsageUpdates := updates }.Sound sha256 argon2Verify := by
  apply sound.of_table
  · rw [same]
    exact List.Subset.refl _
  · rw [map_id_eq, same, ← map_id_eq]
    exact sound.ids
  · rw [map_lookupId_eq, same, ← map_lookupId_eq]
    exact sound.lookupIds

theorem Sound.of_cache (sound : world.Sound sha256 argon2Verify) {cache : TokenCache}
    (kept : CacheSound sha256 argon2Verify world.apiToken cache)
    (bounded : cache.size ≤ cacheCapacity) :
    { world with validTokenCache := cache }.Sound sha256 argon2Verify :=
  { sound with cache := kept, bounded := bounded }

theorem Sound.of_calls (sound : world.Sound sha256 argon2Verify) {calls : List Call}
    (kept : ∀ call ∈ calls, call.Sound sha256 argon2Verify world.apiToken) :
    { world with calls := calls }.Sound sha256 argon2Verify :=
  { sound with calls := kept }

theorem Sound.answered (sound : world.Sound sha256 argon2Verify) {plaintext : String}
    {apiToken : List ApiToken} {now : Nat} {result : Option ApiToken}
    (transparent : result = verifyUncached argon2Verify apiToken now plaintext) :
    (world.answered plaintext apiToken now result).Sound sha256 argon2Verify := by
  refine { sound with answers := ?_ }
  intro answer member
  rcases List.mem_append.mp member with old | new
  · exact sound.answers answer old
  · rw [List.mem_singleton] at new
    subst new
    exact transparent

theorem Sound.queueLastUsedAtUpdate (sound : world.Sound sha256 argon2Verify) (tokenId : String) :
    (world.queueLastUsedAtUpdate tokenId).Sound sha256 argon2Verify :=
  { sound with }

/-- The first turn answers at once, or leaves a call that is sound: a hit is for
the text itself, since no two texts share a key. -/
theorem Sound.verifyToken (injective : Function.Injective sha256)
    (sound : world.Sound sha256 argon2Verify) (plaintext : String) :
    (world.verifyToken sha256 plaintext).Sound sha256 argon2Verify := by
  unfold Verifier.verifyToken
  cases looked : lookupIdFromPlaintext plaintext with
  | none =>
    apply sound.answered
    rw [verifyUncached, looked]
    rfl
  | some lookupId =>
    have missed : (Call.missed plaintext (sha256 plaintext) lookupId).Sound sha256 argon2Verify
        world.apiToken := ⟨rfl, looked⟩
    have cache : CacheSound sha256 argon2Verify world.apiToken
        (cacheGet world.now (sha256 plaintext) world.validTokenCache).2 :=
      sound.cache.of_get fun _ _ => get_of_cacheGet
    refine (sound.of_cache cache (Nat.le_trans size_cacheGet_le sound.bounded)).of_calls ?_
    intro call member
    rcases List.mem_append.mp member with old | new
    · exact sound.calls call old
    · rw [List.mem_singleton] at new
      subst new
      simp only [cacheKeyForPlaintext]
      cases read : (cacheGet world.now (sha256 plaintext) world.validTokenCache).1 with
      | none => exact missed
      | some tokenId =>
        simp only
        split
        · exact missed
        · obtain ⟨entry, there, rfl⟩ := entry_of_cacheGet read
          obtain ⟨text, hashed, accepts⟩ := sound.cache _ entry there
          exact injective hashed ▸ accepts

/-- A later turn answers as the uncached path does, or leaves a sound call. -/
theorem Sound.resume (sound : world.Sound sha256 argon2Verify) {call : Call}
    (own : call.Sound sha256 argon2Verify world.apiToken) :
    (world.resume argon2Verify call).2.Sound sha256 argon2Verify ∧
      ((world.resume argon2Verify call).2.apiToken = world.apiToken ∧
        (world.resume argon2Verify call).2.calls = world.calls) ∧
      ∀ next ∈ (world.resume argon2Verify call).1, next.Sound sha256 argon2Verify world.apiToken := by
  cases call with
  | hit plaintext key tokenId =>
    have same : findActiveTokenById world.apiToken world.now tokenId =
        verifyUncached argon2Verify world.apiToken world.now plaintext :=
      findActive_of_accepts sound.ids sound.lookupIds own
    unfold Verifier.resume
    simp only
    cases found : findActiveTokenById world.apiToken world.now tokenId with
    | none =>
      refine ⟨?_, ⟨rfl, rfl⟩, nofun⟩
      apply Sound.answered
      · apply sound.of_cache
        · exact sound.cache.of_get fun _ _ read => (OrderedMap.get_delete_eq_some.mp read).2
        · exact Nat.le_trans OrderedMap.size_delete_le sound.bounded
      · exact found.symm.trans same
    | some token =>
      exact ⟨(sound.queueLastUsedAtUpdate token.id).answered (found.symm.trans same),
        ⟨rfl, rfl⟩, nofun⟩
  | missed plaintext key lookupId =>
    obtain ⟨hashed, looked⟩ := own
    unfold Verifier.resume
    simp only
    cases found : findActiveTokenByLookupId world.apiToken world.now lookupId with
    | none =>
      refine ⟨sound.answered ?_, ⟨rfl, rfl⟩, nofun⟩
      rw [verifyUncached, looked, Option.bind_some, found]
      rfl
    | some token =>
      obtain ⟨member, rfl, -⟩ := findActiveTokenByLookupId_eq_some found
      refine ⟨sound, ⟨rfl, rfl⟩, ?_⟩
      intro next continued
      cases continued
      exact ⟨hashed, looked, found, List.mem_map.mpr ⟨token, member, rfl⟩⟩
  | verifying plaintext key token seen seenAt =>
    obtain ⟨hashed, looked, found, member⟩ := own
    have uncached : verifyUncached argon2Verify seen seenAt plaintext =
        if argon2Verify token.tokenHash plaintext then some token else none := by
      rw [verifyUncached, looked, Option.bind_some, found, Option.filter_some]
    unfold Verifier.resume
    simp only
    by_cases verified : argon2Verify token.tokenHash plaintext = true
    · rw [if_pos verified]
      refine ⟨?_, ⟨rfl, rfl⟩, nofun⟩
      apply Sound.answered
      · apply Sound.queueLastUsedAtUpdate
        apply sound.of_cache
        · apply sound.cache.cacheSet hashed
          exact ⟨token.lookupId, token.tokenHash, member, looked, verified⟩
        · exact OrderedMap.size_trim_le _
      · rw [uncached, if_pos verified]
    · rw [if_neg verified]
      refine ⟨sound.answered ?_, ⟨rfl, rfl⟩, nofun⟩
      rw [uncached, if_neg verified]

theorem Sound.step (injective : Function.Injective sha256)
    (sound : world.Sound sha256 argon2Verify) {action : Action}
    (taken : world.step sha256 argon2Verify action = some after) :
    after.Sound sha256 argon2Verify := by
  cases action with
  | verifyToken plaintext =>
    cases taken
    exact sound.verifyToken injective plaintext
  | resume index =>
    obtain ⟨call, there, rfl⟩ := Option.map_eq_some_iff.mp taken
    have own := sound.calls call (List.mem_of_getElem? there)
    obtain ⟨resumed, ⟨table, calls⟩, next⟩ := sound.resume own
    apply resumed.of_calls
    rw [table]
    intro other member
    rcases List.mem_append.mp member with old | new
    · exact sound.calls other ((List.eraseIdx_sublist _ _).subset old)
    · exact next other (Option.mem_toList.mp new)
  | tick ms =>
    cases taken
    exact { sound with }
  | create token =>
    simp only [Verifier.step] at taken
    split at taken
    · rename_i fresh
      cases taken
      have apart : ∀ row ∈ world.apiToken, row.id ≠ token.id ∧ row.lookupId ≠ token.lookupId := by
        simpa [List.all_eq_true] using fresh
      apply sound.of_table
      · rw [identities, identities, List.map_append]
        exact List.subset_append_left _ _
      · rw [List.map_append]
        apply sound.ids.append (List.nodup_singleton _)
        simpa [List.disjoint_singleton] using fun row member => (apart row member).1
      · rw [List.map_append]
        apply sound.lookupIds.append (List.nodup_singleton _)
        simpa [List.disjoint_singleton] using fun row member => (apart row member).2
    · cases taken
  | revoke id =>
    cases taken
    exact sound.of_identities (identities_updateMany fun _ => ⟨rfl, rfl, rfl⟩)
  | detach telemetrySourceId =>
    cases taken
    exact sound.of_identities (identities_updateMany fun _ => ⟨rfl, rfl, rfl⟩)
  | invalidateApiTokenCache tokenId =>
    cases taken
    obtain ⟨kept, smaller⟩ := sound.cache.invalidate tokenId
    exact sound.of_cache kept (Nat.le_trans smaller sound.bounded)
  | flushApiTokenUsageUpdates =>
    cases taken
    exact sound.of_identities (identities_flushed _)

theorem Fresh.sound (fresh : world.Fresh) : world.Sound sha256 argon2Verify where
  ids := fresh.ids
  lookupIds := fresh.lookupIds
  cache := by
    intro key entry read
    rw [fresh.cache] at read
    cases read
  bounded := by
    rw [fresh.cache]
    exact Nat.zero_le _
  calls := by
    rw [fresh.calls]
    exact List.forall_mem_nil _
  answers := by
    rw [fresh.answers]
    exact List.forall_mem_nil _

/-- In every run of calls, token writes, invalidations and time, each call
returns what the path without the cache would have returned on the table and at
the time it read, never a token revoked or expired there, and the cache stays
within its capacity. -/
theorem cache_transparent (injective : Function.Injective sha256)
    (reached : Run.Reachable (step sha256 argon2Verify) Fresh world) :
    (∀ answer ∈ world.answers,
      answer.result = verifyUncached argon2Verify answer.apiToken answer.now answer.plaintext ∧
      ∀ token, answer.result = some token → token.revokedAt = none ∧
        ∀ expiresAt, token.expiresAt = some expiresAt → answer.now < expiresAt) ∧
    world.validTokenCache.size ≤ cacheCapacity := by
  have sound : world.Sound sha256 argon2Verify :=
    reached.invariant (fun _ => Fresh.sound) fun _ _ _ kept _ => kept.step injective
  refine ⟨?_, sound.bounded⟩
  intro answer member
  have transparent := sound.answers answer member
  refine ⟨transparent, ?_⟩
  intro token result
  have usable := usable_of_verifyUncached (transparent.symm.trans result)
  simp only [isUsableToken, Bool.and_eq_true, Option.isNone_iff_eq_none, Bool.not_eq_true'] at usable
  refine ⟨usable.1, ?_⟩
  intro expiresAt expires
  simpa [expires] using usable.2

/-! ## A run -/

def phoneText : String := "tb_abcdefgh0123456789-_ABCDEFGHIJKL"

def phoneToken : ApiToken :=
  { id := "phone", lookupId := "tb_abcde", tokenHash := "$argon2id$v=19$m=65536,t=3,p=4$phone" }

def digestOfTexts : String → String :=
  Digest.digest [(phoneText, "4HcaL55byo4CYZ75WWLBzSBPDNBEiCsr2CQ0_z5HOO0")]

def hashOfPhone (tokenHash plaintext : String) : Bool :=
  tokenHash = phoneToken.tokenHash && plaintext = phoneText

/-- The token is verified and cached, verified from the cache, and revoked while cached. -/
def revokedWhileCached : List Action :=
  [.verifyToken phoneText, .resume 0, .resume 0, .tick 1000, .verifyToken phoneText, .resume 0,
    .verifyToken phoneText, .revoke "phone", .resume 0]

def afterRevoked : Verifier :=
  (Run.exec (step digestOfTexts hashOfPhone) { apiToken := [phoneToken] } revokedWhileCached).getD {}

theorem cache_transparent_revoked :
    afterRevoked.answers.map (fun answer => answer.result.isSome) = [true, true, false] ∧
      (∀ answer ∈ afterRevoked.answers,
        answer.result = verifyUncached hashOfPhone answer.apiToken answer.now answer.plaintext ∧
        ∀ token, answer.result = some token → token.revokedAt = none ∧
          ∀ expiresAt, token.expiresAt = some expiresAt → answer.now < expiresAt) ∧
      afterRevoked.validTokenCache.size ≤ cacheCapacity := by
  have fresh : Fresh { apiToken := [phoneToken] } := ⟨by simp, by simp, rfl, rfl, rfl⟩
  have ran : Run.exec (step digestOfTexts hashOfPhone) { apiToken := [phoneToken] }
      revokedWhileCached = some afterRevoked := by decide +kernel
  have injective : Function.Injective digestOfTexts :=
    Digest.digest_injective (by decide) (by decide)
  exact ⟨by decide +kernel, cache_transparent injective (Run.reachable_of_exec fresh ran)⟩

end Verifier

end BoothOperator.Access
