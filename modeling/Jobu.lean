import Jobu.Capture
import Jobu.Properties.Suspension
import Jobu.Properties.Startup
import Jobu.Properties.Histories
import Jobu.Properties.Retries
import Jobu.Properties.Recurrence
import Jobu.Properties.Failures
import Jobu.Properties.Fairness
import Jobu.Properties.Framing
import Jobu.Properties.Batch
import Jobu.Properties.Correlation
import Jobu.Properties.Settlement
import Jobu.Properties.CronGrammar
import Jobu.Properties.Occurrences
import Jobu.Identifiers
import Jobu.Properties.TimezoneBytes
import Jobu.History
import Jobu.Management.Listing
import Jobu.ResponseHeaders
import Jobu.Base64
import Jobu.CommandArgv
import Jobu.Retention
import Jobu.Utf8
