import OpcUa.Loops
import OpcUa.SecureChannels

namespace OpcUa.ChannelExpiry

open StatusCodes Servers SecureChannels

def badServerNotConnected : StatusCode := 0x800D0000

/-- The fields of `UA_Client` and its configuration that
`SecureChannelHandshake` reads or sets. The configuration is in
milliseconds. -/
structure Client where
  connectionEstablished : Bool
  secureChannelLifeTime : Int32
  timeToRenewSecureChannel : Int32
  scExpiresAt : DateTime
deriving DecidableEq, Repr

inductive RequestType
  | issue
  | renew
deriving DecidableEq, Repr

/-- How `SecureChannelHandshake` goes on: it returns, or it sends an
OpenSecureChannelRequest. -/
inductive Handshake
  | returns (status : StatusCode)
  | sends (requestType : RequestType) (requestedLifetime : UInt32)
deriving DecidableEq, Repr

/-- The check of `SecureChannelHandshake`. The product of the two signed
numbers of 32 bits is taken to wrap around. -/
def stillValid (now : DateTime) (client : Client) : Bool :=
  client.scExpiresAt - now > (client.timeToRenewSecureChannel * 10000).toInt

/-- `SecureChannelHandshake` until the request is sent. -/
def secureChannelHandshake (now : DateTime) (client : Client) (renew : Bool) : Handshake :=
  if renew && stillValid now client then .returns good
  else if !client.connectionEstablished then .returns badServerNotConnected
  else .sends (if renew then .renew else .issue) client.secureChannelLifeTime.toUInt32

/-- `SecureChannelHandshake` once the response is decoded: the product is one
of unsigned numbers of 32 bits. -/
def receiveResponse (now : DateTime) (client : Client) (revisedLifetime : UInt32) : Client :=
  { client with scExpiresAt := now + (revisedLifetime * 10000).toNat }

/-- `__UA_Client_Service` starts with `UA_Client_manuallyRenewSecureChannel`. -/
def clientService (now : DateTime) (client : Client) : Handshake := secureChannelHandshake now client true

section Products

variable {lifetime : UInt32} {margin : Int32}

theorem toNat_units_iff : (lifetime * 10000).toNat = lifetime.toNat * 10000 ↔ lifetime.toNat * 10000 < 2 ^ 32 := by
  rw [UInt32.toNat_mul]
  have hmod := Nat.mod_lt (lifetime.toNat * 10000) (by decide : 0 < 2 ^ 32)
  have hten : (10000 : UInt32).toNat = 10000 := rfl
  rw [hten]
  constructor
  · omega
  · exact Nat.mod_eq_of_lt

theorem toInt_units_iff : (margin * 10000).toInt = margin.toInt * 10000 ↔
    -2 ^ 31 ≤ margin.toInt * 10000 ∧ margin.toInt * 10000 < 2 ^ 31 := by
  have hten : (10000 : Int32).toInt = 10000 := rfl
  have hmul : (margin * 10000).toInt = (margin.toInt * 10000).bmod (2 ^ 32) := by
    rw [Int32.toInt_mul, hten]
  constructor
  · intro heq
    have hlower := (margin * 10000).le_toInt
    have hupper := (margin * 10000).toInt_lt
    omega
  · rintro ⟨hlower, hupper⟩
    rw [hmul]
    exact Int.bmod_eq_of_le (by omega) (by omega)

/-- Two margins decide alike at all times up to the expiry just when they are
equal or neither is below the lifetime. -/
theorem margins_agree_iff (length wrapped margin : Int) :
    (∀ t now : Int, t ≤ now → (¬ t + length - now > wrapped ↔ t + length - now ≤ margin)) ↔
      wrapped = margin ∨ length ≤ margin ∧ length ≤ wrapped := by
  constructor
  · intro h
    by_contra hnot
    rcases lt_or_ge wrapped margin with hless | hge
    · have hat := h 0 (length - min margin length) (by omega)
      omega
    · have hat := h 0 (length - min wrapped length) (by omega)
      omega
  · rintro (rfl | ⟨hmargin, hwrapped⟩) t now hnow
    · exact Int.not_lt
    · omega

end Products

/-- The client, whose channel was opened or renewed at the time `t`, agrees
with the server on the expiry and asks for a renewal when the margin is
reached, just when the products fit into 32 bits. A margin whose product does
not fit does no harm if it is above the lifetime on both counts. -/
theorem expiry_agrees_iff (config : Client) (lifetime : UInt32) :
    (∀ t now : DateTime, ∀ channelId tokenId : UInt32, t ≤ now →
      (receiveResponse t config lifetime).scExpiresAt = t + lifetime.toNat * 10000 ∧
      (expired now ⟨channelId, tokenId, t, lifetime⟩ ↔ (receiveResponse t config lifetime).scExpiresAt < now) ∧
      (clientService now (receiveResponse t { config with connectionEstablished := true } lifetime) =
          .sends .renew config.secureChannelLifeTime.toUInt32 ↔
        t + lifetime.toNat * 10000 - now ≤ config.timeToRenewSecureChannel.toInt * 10000)) ↔
    lifetime.toNat * 10000 < 2 ^ 32 ∧
      ((-2 ^ 31 ≤ config.timeToRenewSecureChannel.toInt * 10000 ∧
          config.timeToRenewSecureChannel.toInt * 10000 < 2 ^ 31) ∨
        (lifetime.toNat * 10000 ≤ config.timeToRenewSecureChannel.toInt * 10000 ∧
          lifetime.toNat * 10000 ≤ (config.timeToRenewSecureChannel * 10000).toInt)) := by
  have hrenew (t now : DateTime) (hfits : (lifetime * 10000).toNat = lifetime.toNat * 10000) :
      clientService now (receiveResponse t { config with connectionEstablished := true } lifetime) =
          .sends .renew config.secureChannelLifeTime.toUInt32 ↔
        ¬ t + lifetime.toNat * 10000 - now > (config.timeToRenewSecureChannel * 10000).toInt := by
    by_cases hvalid : t + lifetime.toNat * 10000 - now > (config.timeToRenewSecureChannel * 10000).toInt
    · simp only [clientService, secureChannelHandshake, stillValid, receiveResponse, hfits, Bool.true_and, Nat.cast_mul,
        Nat.cast_ofNat, hvalid, decide_true, if_true, not_true_eq_false, reduceCtorEq]
    · simp only [clientService, secureChannelHandshake, stillValid, receiveResponse, hfits, Bool.true_and, Nat.cast_mul,
        Nat.cast_ofNat, hvalid, decide_false, Bool.false_eq_true, if_false, Bool.not_true, if_true, not_false_eq_true]
  rw [← toInt_units_iff, ← toNat_units_iff, ← margins_agree_iff]
  constructor
  · intro h
    have hfits : (lifetime * 10000).toNat = lifetime.toNat * 10000 := by
      have hexpiry : (0 : Int) + ((lifetime * 10000).toNat : Int) = 0 + lifetime.toNat * 10000 :=
        (h 0 0 0 0 (Int.le_refl _)).1
      omega
    refine ⟨hfits, fun t now hnow => ?_⟩
    rw [← hrenew t now hfits]
    exact (h t now 0 0 hnow).2.2
  · rintro ⟨hfits, hmargin⟩ t now channelId tokenId hnow
    have hexpiry : (receiveResponse t config lifetime).scExpiresAt = t + lifetime.toNat * 10000 := by
      simp only [receiveResponse, hfits, Nat.cast_mul, Nat.cast_ofNat]
    refine ⟨hexpiry, ?_, ?_⟩
    · rw [hexpiry, expired, decide_eq_true_eq]
    · rw [hrenew t now hfits]
      exact hmargin t now hnow

/-- With the longest lifetime that the server grants, ten minutes, the client
takes the channel for expired after less than three. -/
theorem ten_minutes_disagree : ¬ (receiveResponse 0 ⟨true, 600000, 2000, 0⟩ 600000).scExpiresAt = 600000 * 10000 ∧
    clientService 1705032704 (receiveResponse 0 ⟨true, 600000, 2000, 0⟩ 600000) = .sends .renew 600000 ∧
    expired 1705032704 ⟨1, 1, 0, 600000⟩ = false := by
  decide

end OpcUa.ChannelExpiry
