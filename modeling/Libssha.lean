import Libssha.Codec
import Libssha.CodecLaws
import Libssha.SizeT
import Libssha.RestrictDestination
import Libssha.DestinationCodec
import Libssha.PubKey
import Libssha.Key
import Libssha.Permit
import Libssha.Messages
import Libssha.RoundTrip
import Libssha.Encoders
import Libssha.KeyBlobs
import Libssha.KeyManager
import Libssha.Locking
import Libssha.Session
import Libssha.SessionBindings
import Libssha.Framing
import Libssha.Signing
import Libssha.Interleaving
import Libssha.Requests
import Libssha.StoreRefinement
import Libssha.Replies
import Libssha.Lifecycle
import Libssha.DeclaredLength
