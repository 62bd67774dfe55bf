import Alko.Common.Commands
import Alko.Foundation.Bits
import Alko.Foundation.OnesComplement
import Alko.Foundation.FrameStream
import Alko.Foundation.FrameParse
import Alko.Foundation.FrameResync
import Alko.Foundation.UnitService
import Alko.Foundation.Run
import Alko.Foundation.Ticket
import Alko.Foundation.History
import Alko.Foundation.Segments
import Alko.Foundation.Rotation
import Alko.Foundation.Handles
import Alko.Foundation.Duplex
import Alko.Foundation.Schedule
import Alko.Foundation.PortExpander
import Alko.Foundation.CharacterDisplay
import Alko.Foundation.Logs
import Alko.Qt.QString
import Alko.Qt.Lines
import Alko.Qt.LineReads
import Alko.Qt.Text
import Alko.Arduino.Timer
import Alko.Arduino.Lcd
import Alko.Arduino.LcdRows
import Alko.Arduino.Narco
import Alko.Arduino.Datagram
import Alko.Arduino.DatagramHandles
import Alko.Arduino.Network
import Alko.Arduino.Dixie
import Alko.Arduino.LiquidCrystal
import Alko.Arduino.Screen
import Alko.Arduino.LcdReads
import Alko.Arduino.Control
import Alko.Arduino.Refinement
import Alko.Arduino.Main
import Alko.Arduino.Operations
import Alko.Arduino.Expanders
import Alko.Arduino.Board
import Alko.Arduino.ColumnWord
import Alko.Arduino.Rotation
import Alko.Arduino.Safety
import Alko.Arduino.Vends
import Alko.Arduino.Retries
import Alko.Arduino.VendIdentity
import Alko.Arduino.InfoText
import Alko.Arduino.Homing
import Alko.Arduino.Visits
import Alko.Arduino.Frames
import Alko.Arduino.StateRequests
import Alko.Arduino.GivingUp
import Alko.Arduino.FetchAnswer
import Alko.Arduino.Clocked
import Alko.Arduino.MotorTime
import Alko.Arduino.LinkLoss
import Alko.Arduino.Handover
import Alko.Arduino.Fetches
import Alko.Alkod.AlkoManager
import Alko.Alkod.Customer
import Alko.Alkod.CustomerSafety
import Alko.Alkod.CustomerRequests
import Alko.Alkod.CustomerResources
import Alko.Alkod.CustomerExpiry
import Alko.Alkod.Segmentation
import Alko.Alkod.HttpHandler
import Alko.Alkod.HttpAccess
import Alko.Alkod.HttpSegmentation
import Alko.Alkod.Clients
import Alko.Alkod.MagtekReader
import Alko.Alkod.LogEntries
import Alko.Alkod.LogPage
import Alko.Alkod.Placeholders
import Alko.Alkod.HtmlParser
import Alko.Alkod.TemplateLine
import Alko.Alkod.HtmlTemplates
import Alko.System.Framing
import Alko.System.FrameSizes
import Alko.System.Delivery
import Alko.System.Receiving
import Alko.System.Intake
import Alko.System.ErrorDetection
import Alko.System.ChecksumSeal
import Alko.System.Resync
import Alko.System.CardPath
import Alko.System.Charge
import Alko.System.ReplyTable
import Alko.System.ReplyRouting
import Alko.System.RequestIds
import Alko.System.Link
import Alko.System.InOrder
import Alko.System.Keepalive
import Alko.System.Installation
import Alko.System.Accounts
