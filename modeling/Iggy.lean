import Iggy.Client.Credentials
import Iggy.Net.Address
import Iggy.Net.Names
import Iggy.Net.Host
import Iggy.Crypto.Pki
import Iggy.Lib.Ledger
import Iggy.Ssl.CertManager
import Iggy.Ssl.Carry
import Iggy.Ssl.Allocation
import Iggy.Ssl.Enforce
import Iggy.Ssl.CipherString
import Iggy.Serialization
import Iggy.Crypto.LocalStore
import Iggy.Ssl.Values
import Iggy.Ssl.Calls
import Iggy.Ssl.Outcome
import Iggy.Ssl.Defaults
import Iggy.Lib.Once
import Iggy.Crypto.Anchor
import Iggy.Crypto.Trust
import Iggy.Client.Marks
import Iggy.Client.Options
import Iggy.Net.Render
