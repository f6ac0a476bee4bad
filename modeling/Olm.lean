import Olm.Account.Bundle
import Olm.Account.Calls
import Olm.Account.Generation
import Olm.Account.Ids
import Olm.Account.Json
import Olm.Account.JsonText
import Olm.Account.Model
import Olm.Account.OneTimeKeysJson
import Olm.Account.Pickle
import Olm.Account.Prekeys
import Olm.Account.Reload
import Olm.Base64.Alphabet
import Olm.Base64.Layouts
import Olm.Base64.Model
import Olm.Base64.Overlaid
import Olm.Base64.RoundTrip
import Olm.Cipher.Callers
import Olm.Cipher.InPlace
import Olm.Cipher.Lawful
import Olm.Cipher.Model
import Olm.Cipher.Objects
import Olm.Cipher.Padding
import Olm.Cipher.RoundTrip
import Olm.Common.Blocks
import Olm.Common.BoundedList
import Olm.Common.Bytes
import Olm.Common.Calls
import Olm.Common.Cascade
import Olm.Common.CascadeTerms
import Olm.Common.Derivation
import Olm.Common.Galois
import Olm.Common.Hkdf
import Olm.Common.Json
import Olm.Common.Lists
import Olm.Common.Montgomery
import Olm.Common.Run
import Olm.Common.Shelf
import Olm.Common.Signed
import Olm.Common.Unpickler
import Olm.Common.Varint
import Olm.Common.Window
import Olm.Conversation.Agreement
import Olm.Conversation.Chains
import Olm.Conversation.Delivery
import Olm.Conversation.Epochs
import Olm.Conversation.Keys
import Olm.Conversation.Outcomes
import Olm.Conversation.Ratchets
import Olm.Conversation.Replay
import Olm.Conversation.Secrecy
import Olm.Conversation.Sending
import Olm.Conversation.Sequential
import Olm.Conversation.Sessions
import Olm.Conversation.System
import Olm.Crypto
import Olm.CryptoAlgorithms.Aes
import Olm.CryptoAlgorithms.AesInverse
import Olm.CryptoAlgorithms.Hashes
import Olm.CryptoAlgorithms.Sha256
import Olm.CryptoAlgorithms.Sha256Stream
import Olm.Curve25519Donna.Contract
import Olm.Curve25519Donna.Expand
import Olm.Curve25519Donna.Field
import Olm.Curve25519Donna.Inverse
import Olm.Curve25519Donna.Ladder
import Olm.Curve25519Donna.Multiples
import Olm.Curve25519Donna.Primes
import Olm.Curve25519Donna.Store
import Olm.Group.Cache
import Olm.Group.Delivery
import Olm.Group.Export
import Olm.Group.Messages
import Olm.Group.Model
import Olm.Group.Network
import Olm.Group.Pickle
import Olm.Group.Reload
import Olm.Group.Secrecy
import Olm.Group.SessionKey
import Olm.Group.Verified
import Olm.Group.Views
import Olm.Kdf
import Olm.List
import Olm.Megolm.Advance
import Olm.Megolm.Model
import Olm.Message.Bounds
import Olm.Message.Decoders
import Olm.Message.Formats
import Olm.Message.Grammar
import Olm.Message.LastField
import Olm.Message.Model
import Olm.Message.Payload
import Olm.Message.RoundTrip
import Olm.Message.Walk
import Olm.Pickle
import Olm.PickleEncoding
import Olm.PickleFlaws
import Olm.PickleInput
import Olm.Pk.Buffers
import Olm.Pk.Mac
import Olm.Pk.Model
import Olm.Pk.Pickle
import Olm.Pk.RoundTrip
import Olm.Ratchet.Model
import Olm.Ratchet.Pickle
import Olm.Ratchet.Sealed
import Olm.Ratchet.Spec
import Olm.Sas.Agreement
import Olm.Sas.Calls
import Olm.Sas.Codes
import Olm.Sas.Model
import Olm.Session.AnyOrder
import Olm.Session.Canonical
import Olm.Session.Describe
import Olm.Session.Errors
import Olm.Session.Handshake
import Olm.Session.Inbound
import Olm.Session.Matching
import Olm.Session.Messages
import Olm.Session.Model
import Olm.Session.OneTimeKeys
import Olm.Session.Pickle
import Olm.Session.PublishedPrekeys
import Olm.Session.SessionId
import Olm.Session.Setup
import Olm.Session.SetupFailure
import Olm.Session.Texts
import Olm.Symbolic
import Olm.TextCalls
